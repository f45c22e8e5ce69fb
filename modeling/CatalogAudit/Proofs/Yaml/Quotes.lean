import CatalogAudit.Proofs.Yaml.Literal

/-!
# Quoted scalars determine their texts

A quoted text ends with the first quote that is neither doubled nor escaped. In single quotes a
line that goes on behind a break is indented, and in double quotes no break stands for itself.
-/

namespace CatalogAudit
namespace Yaml

/-!
# Single quotes
-/

section SingleQuoted

variable {indent : Nat}

def doubledQuote (c : Char) : List Char :=
  if c = '\'' then ['\'', '\''] else [c]

theorem singleQuotedRest_nil (fresh : Bool) :
    singleQuotedRest indent fresh [] = indentation (margin indent fresh) ++ ['\''] := by
  rw [singleQuotedRest, indentation_margin]

theorem singleQuotedRest_of_break (fresh : Bool) {c : Char} (h : isBreak c = true)
    (cs : List Char) :
    singleQuotedRest indent fresh (c :: cs) = c :: singleQuotedRest indent true cs := by
  rw [singleQuotedRest, if_pos h]

theorem singleQuotedRest_of_not_break (fresh : Bool) {c : Char} (h : isBreak c = false)
    (cs : List Char) :
    singleQuotedRest indent fresh (c :: cs) =
      indentation (margin indent fresh) ++
        (doubledQuote c ++ singleQuotedRest indent false cs) := by
  rw [singleQuotedRest, h, if_neg Bool.false_ne_true, indentation_margin, List.append_assoc]
  rfl

theorem doubledQuote_append_inj {c d : Char} {xs ys : List Char}
    (h : doubledQuote c ++ xs = doubledQuote d ++ ys) : c = d ∧ xs = ys := by
  unfold doubledQuote at h
  by_cases hC : c = '\''
  · by_cases hD : d = '\''
    · simp only [hC, hD, if_true] at h
      exact ⟨hC.trans hD.symm, List.append_cancel_left h⟩
    · simp only [hC, hD, if_true, if_false] at h
      injection h with hHead _
      exact absurd hHead.symm hD
  · by_cases hD : d = '\''
    · simp only [hC, hD, if_true, if_false] at h
      injection h with hHead _
      exact absurd hHead hC
    · simp only [hC, hD, if_false] at h
      injection h with hHead hTail
      exact ⟨hHead, hTail⟩

/-- The closing quote is not doubled, since something else follows. -/
theorem closing_ne_doubledQuote {r : List Char} (h : r.head? ≠ some '\'') (d : Char)
    (ys : List Char) : '\'' :: r ≠ doubledQuote d ++ ys := by
  intro hEq
  unfold doubledQuote at hEq
  by_cases hD : d = '\''
  · simp only [hD, if_true] at hEq
    injection hEq with _ hTail
    rw [hTail] at h
    exact h rfl
  · simp only [hD, if_false] at hEq
    injection hEq with hHead _
    exact hD hHead.symm

theorem closing_ne_singleQuotedRest {r : List Char} (h : r.head? ≠ some '\'') (fresh : Bool)
    (d : Char) (ds r' : List Char) :
    singleQuotedRest indent fresh [] ++ r ≠ singleQuotedRest indent fresh (d :: ds) ++ r' := by
  intro hEq
  rw [singleQuotedRest_nil, List.append_assoc] at hEq
  cases hBreak : isBreak d with
  | true =>
      rw [singleQuotedRest_of_break fresh hBreak] at hEq
      exact cons_ne_indented hBreak (by decide) _ _ _ hEq.symm
  | false =>
      rw [singleQuotedRest_of_not_break fresh hBreak, List.append_assoc, List.append_assoc] at hEq
      exact closing_ne_doubledQuote h d _ (List.append_cancel_left hEq)

theorem cons_ne_doubledQuote {b c : Char} (hBreak : isBreak b = true) (hChar : isBreak c = false)
    (indent : Nat) (xs ys : List Char) :
    b :: xs ≠ indentation indent ++ (doubledQuote c ++ ys) := by
  unfold doubledQuote
  split
  · exact cons_ne_indented hBreak (by decide) _ _ _
  · exact cons_ne_indented hBreak hChar _ _ _

theorem singleQuotedRest_append_inj {fresh : Bool} {cs ds r r' : List Char}
    (hRest : r.head? ≠ some '\'') (hRest' : r'.head? ≠ some '\'')
    (h : singleQuotedRest indent fresh cs ++ r = singleQuotedRest indent fresh ds ++ r') :
    cs = ds ∧ r = r' := by
  induction cs generalizing fresh ds with
  | nil =>
      cases ds with
      | nil => exact ⟨rfl, List.append_cancel_left h⟩
      | cons d ds => exact absurd h (closing_ne_singleQuotedRest hRest fresh d ds r')
  | cons c cs ih =>
      cases ds with
      | nil => exact absurd h.symm (closing_ne_singleQuotedRest hRest' fresh c cs r)
      | cons d ds =>
          cases hC : isBreak c with
          | true =>
              rw [singleQuotedRest_of_break fresh hC] at h
              cases hD : isBreak d with
              | true =>
                  rw [singleQuotedRest_of_break fresh hD] at h
                  injection h with hHead hTail
                  rcases ih hTail with ⟨hRests, hAfter⟩
                  exact ⟨by rw [hHead, hRests], hAfter⟩
              | false =>
                  rw [singleQuotedRest_of_not_break fresh hD, List.append_assoc,
                    List.append_assoc] at h
                  exact absurd h (cons_ne_doubledQuote hC hD _ _ _)
          | false =>
              rw [singleQuotedRest_of_not_break fresh hC, List.append_assoc,
                List.append_assoc] at h
              cases hD : isBreak d with
              | true =>
                  rw [singleQuotedRest_of_break fresh hD] at h
                  exact absurd h.symm (cons_ne_doubledQuote hD hC _ _ _)
              | false =>
                  rw [singleQuotedRest_of_not_break fresh hD, List.append_assoc,
                    List.append_assoc] at h
                  rcases doubledQuote_append_inj (List.append_cancel_left h) with ⟨hHead, hTail⟩
                  rcases ih hTail with ⟨hRests, hAfter⟩
                  exact ⟨by rw [hHead, hRests], hAfter⟩

end SingleQuoted

/-!
# Double quotes

An escape is a backslash and a letter, and the letter tells how many digits follow.
-/

def unescaped (letter : Char) : Char :=
  match letter with
  | '0' => '\x00'
  | 'a' => '\x07'
  | 'b' => '\x08'
  | 't' => '\t'
  | 'n' => '\n'
  | 'v' => '\x0b'
  | 'f' => '\x0c'
  | 'r' => '\r'
  | 'e' => '\x1b'
  | 'N' => '\u0085'
  | 'L' => '\u2028'
  | 'P' => '\u2029'
  | letter => letter

theorem unescaped_of_shortEscape? {c letter : Char} (h : shortEscape? c = some letter) :
    unescaped letter = c ∧ letter ≠ 'x' ∧ letter ≠ 'u' ∧ letter ≠ 'U' := by
  unfold shortEscape? at h
  split at h
  all_goals cases h
  all_goals decide

theorem upperHexDigit_inj : ∀ m n, m < 16 → n < 16 → upperHexDigit m = upperHexDigit n → m = n := by
  have hAll : ∀ m < 16, ∀ n < 16, upperHexDigit m = upperHexDigit n → m = n := by
    decide
  exact fun m n hM hN => hAll m hM n hN

theorem length_hexDigits (width n : Nat) : (hexDigits width n).length = width := by
  induction width generalizing n with
  | zero => rfl
  | succ width ih => rw [hexDigits, List.length_append, ih, List.length_singleton]

theorem hexDigits_inj {width m n : Nat} (hM : m < Nat.pow 16 width) (hN : n < Nat.pow 16 width)
    (h : hexDigits width m = hexDigits width n) : m = n := by
  induction width generalizing m n with
  | zero => exact (Nat.lt_one_iff.mp hM).trans (Nat.lt_one_iff.mp hN).symm
  | succ width ih =>
      rw [hexDigits, hexDigits] at h
      rcases List.append_inj' h rfl with ⟨hUpper, hLower⟩
      have hHigh : m / 16 = n / 16 := by
        apply ih _ _ hUpper
        · exact (Nat.div_lt_iff_lt_mul (by decide)).mpr hM
        · exact (Nat.div_lt_iff_lt_mul (by decide)).mpr hN
      have hLow : m % 16 = n % 16 :=
        upperHexDigit_inj _ _ (Nat.mod_lt _ (by decide)) (Nat.mod_lt _ (by decide))
          (List.cons.inj hLower).1
      omega

theorem hexDigits_append_inj {width m n : Nat} (hM : m < Nat.pow 16 width)
    (hN : n < Nat.pow 16 width) {xs ys : List Char}
    (h : hexDigits width m ++ xs = hexDigits width n ++ ys) :
    m = n ∧ xs = ys := by
  rcases List.append_inj h (by rw [length_hexDigits, length_hexDigits]) with ⟨hDigits, hRest⟩
  exact ⟨hexDigits_inj hM hN hDigits, hRest⟩

def wideLetter (n : Nat) : Char :=
  if n ≤ 0xFF then 'x' else if n ≤ 0xFFFF then 'u' else 'U'

def digitCount (letter : Char) : Nat :=
  if letter = 'x' then 2 else if letter = 'u' then 4 else 8

theorem escape_of_some {c letter : Char} (h : shortEscape? c = some letter) :
    escape c = ['\\', letter] := by
  unfold escape
  rw [h]

theorem escape_of_none {c : Char} (h : shortEscape? c = none) :
    escape c =
      '\\' :: wideLetter c.toNat :: hexDigits (digitCount (wideLetter c.toNat)) c.toNat := by
  unfold escape wideLetter
  rw [h]
  show (if c.toNat ≤ 0xFF then _ else if c.toNat ≤ 0xFFFF then _ else _) = _
  split
  · rfl
  · split
    · rfl
    · rfl

theorem toNat_lt_digitCount (c : Char) :
    c.toNat < Nat.pow 16 (digitCount (wideLetter c.toNat)) := by
  unfold wideLetter
  split
  · rename_i hTwo
    exact Nat.lt_of_le_of_lt hTwo (by decide)
  · split
    · rename_i hFour
      exact Nat.lt_of_le_of_lt hFour (by decide)
    · have hValid : c.toNat < 0x110000 := by
        rcases c.valid with hLow | ⟨_, hHigh⟩
        · exact Nat.lt_trans hLow (by decide)
        · exact hHigh
      exact Nat.lt_trans hValid (by decide)

theorem shortEscape?_ne_wideLetter {c letter : Char} (h : shortEscape? c = some letter) (n : Nat) :
    letter ≠ wideLetter n := by
  rcases unescaped_of_shortEscape? h with ⟨_, hX, hU, hWide⟩
  unfold wideLetter
  split
  · exact hX
  · split
    · exact hU
    · exact hWide

theorem escape_append_inj {c d : Char} {xs ys : List Char}
    (h : escape c ++ xs = escape d ++ ys) : c = d ∧ xs = ys := by
  cases hC : shortEscape? c with
  | some letter =>
      rw [escape_of_some hC] at h
      cases hD : shortEscape? d with
      | some letter' =>
          rw [escape_of_some hD] at h
          injection h with _ hTail
          injection hTail with hLetter hRest
          refine ⟨?_, hRest⟩
          rw [← (unescaped_of_shortEscape? hC).1, hLetter, (unescaped_of_shortEscape? hD).1]
      | none =>
          rw [escape_of_none hD] at h
          injection h with _ hTail
          injection hTail with hLetter _
          exact absurd hLetter (shortEscape?_ne_wideLetter hC _)
  | none =>
      rw [escape_of_none hC] at h
      cases hD : shortEscape? d with
      | some letter' =>
          rw [escape_of_some hD] at h
          injection h with _ hTail
          injection hTail with hLetter _
          exact absurd hLetter.symm (shortEscape?_ne_wideLetter hD _)
      | none =>
          rw [escape_of_none hD] at h
          injection h with _ hTail
          injection hTail with hLetter hDigits
          have hBound := toNat_lt_digitCount d
          rw [← hLetter] at hBound hDigits
          rcases hexDigits_append_inj (toNat_lt_digitCount c) hBound hDigits with ⟨hNat, hRest⟩
          exact ⟨Char.toNat_inj.mp hNat, hRest⟩

theorem exists_escape_eq (c : Char) : ∃ tail, escape c = '\\' :: tail := by
  cases h : shortEscape? c with
  | some letter => exact ⟨_, escape_of_some h⟩
  | none => exact ⟨_, escape_of_none h⟩

/-- Characters that stand for themselves inside of double quotes. -/
def isBare (c : Char) : Bool :=
  isPrintable c && !isBreak c && c ≠ '"' && c ≠ '\\'

theorem doubleQuotedChar_eq (c : Char) :
    doubleQuotedChar c = if isBare c then [c] else escape c :=
  rfl

theorem ne_of_isBare {c : Char} (h : isBare c = true) : c ≠ '"' ∧ c ≠ '\\' := by
  unfold isBare at h
  simp only [Bool.and_eq_true, decide_eq_true_eq] at h
  exact ⟨h.1.2, h.2⟩

theorem doubleQuotedChar_append_inj {c d : Char} {xs ys : List Char}
    (h : doubleQuotedChar c ++ xs = doubleQuotedChar d ++ ys) : c = d ∧ xs = ys := by
  rw [doubleQuotedChar_eq, doubleQuotedChar_eq] at h
  rcases exists_escape_eq c with ⟨tail, hEscape⟩
  rcases exists_escape_eq d with ⟨tail', hEscape'⟩
  cases hC : isBare c with
  | true =>
      cases hD : isBare d with
      | true =>
          rw [hC, hD, if_pos rfl, if_pos rfl] at h
          injection h with hHead hRest
          exact ⟨hHead, hRest⟩
      | false =>
          rw [hC, hD, if_pos rfl, if_neg Bool.false_ne_true, hEscape'] at h
          injection h with hHead _
          exact absurd hHead (ne_of_isBare hC).2
  | false =>
      cases hD : isBare d with
      | true =>
          rw [hC, hD, if_pos rfl, if_neg Bool.false_ne_true, hEscape] at h
          injection h with hHead _
          exact absurd hHead.symm (ne_of_isBare hD).2
      | false =>
          rw [hC, hD, if_neg Bool.false_ne_true, if_neg Bool.false_ne_true] at h
          exact escape_append_inj h

theorem quote_ne_doubleQuotedChar (d : Char) (xs ys : List Char) :
    '"' :: xs ≠ doubleQuotedChar d ++ ys := by
  intro h
  rw [doubleQuotedChar_eq] at h
  rcases exists_escape_eq d with ⟨tail, hEscape⟩
  cases hD : isBare d with
  | true =>
      rw [hD, if_pos rfl] at h
      injection h with hHead _
      exact (ne_of_isBare hD).1 hHead.symm
  | false =>
      rw [hD, if_neg Bool.false_ne_true, hEscape] at h
      injection h with hHead _
      exact absurd hHead (by decide)

theorem doubleQuoted_append_inj {cs ds r r' : List Char}
    (h : cs.flatMap doubleQuotedChar ++ '"' :: r = ds.flatMap doubleQuotedChar ++ '"' :: r') :
    cs = ds ∧ r = r' := by
  induction cs generalizing ds with
  | nil =>
      cases ds with
      | nil => exact ⟨rfl, (List.cons.inj h).2⟩
      | cons d ds =>
          rw [List.flatMap_cons, List.append_assoc] at h
          exact absurd h (quote_ne_doubleQuotedChar d r _)
  | cons c cs ih =>
      rw [List.flatMap_cons, List.append_assoc] at h
      cases ds with
      | nil => exact absurd h.symm (quote_ne_doubleQuotedChar c r' _)
      | cons d ds =>
          rw [List.flatMap_cons, List.append_assoc] at h
          rcases doubleQuotedChar_append_inj h with ⟨hHead, hTail⟩
          rcases ih hTail with ⟨hRests, hAfter⟩
          exact ⟨by rw [hHead, hRests], hAfter⟩

end Yaml
end CatalogAudit
