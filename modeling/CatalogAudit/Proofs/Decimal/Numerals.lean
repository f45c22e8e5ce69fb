import CatalogAudit.Decimal.Natural

/-!
# Numerals

A numeral consists of decimal digits, with one plus sign before them or none. A word is read as a
number exactly if it is a numeral whose value is below the bound, however many zeros it begins with.
Any other word is refused for the first thing in it that is wrong.
-/

namespace CatalogAudit
namespace Natural

/-!
# Digits
-/

theorem toNat_of_isDigit {c : Char} (h : c.isDigit = true) : 48 ≤ c.toNat ∧ c.toNat ≤ 57 := by
  simpa [Char.isDigit, UInt32.le_iff_toNat_le] using h

theorem digitValue?_of_isDigit {c : Char} (h : c.isDigit = true) :
    digitValue? c = some (c.toNat - '0'.toNat) := by
  have hRange := toNat_of_isDigit h
  unfold digitValue?
  rw [if_pos]
  simp only [Char.le_def, UInt32.le_iff_toNat_le]
  exact hRange

theorem digitValue?_of_not_isDigit {c : Char} (h : c.isDigit = false) : digitValue? c = none := by
  unfold digitValue?
  rw [if_neg]
  simpa [Char.isDigit, Char.le_def] using h

theorem le_ofDigitChars (cs : List Char) (value : Nat) : value ≤ Nat.ofDigitChars 10 cs value := by
  induction cs generalizing value with
  | nil => exact Nat.le_refl _
  | cons c cs ih =>
      rw [Nat.ofDigitChars_cons]
      exact Nat.le_trans (by omega) (ih _)

/-!
# Runs of digits

Values only grow from digit to digit, so a run of digits is read to its end if the value of the
whole run is below the bound, and it is refused on the way otherwise.
-/

theorem parseDigits_append {digits : List Char} (hDigits : ∀ c ∈ digits, c.isDigit = true)
    {value : Nat} (hFits : Nat.ofDigitChars 10 digits value < bound) (rest : List Char) :
    parseDigits value (digits ++ rest) = parseDigits (Nat.ofDigitChars 10 digits value) rest := by
  induction digits generalizing value with
  | nil => rfl
  | cons c digits ih =>
      have hDigit := digitValue?_of_isDigit (hDigits c (List.mem_cons_self ..))
      have hBehind := fun c' hMem => hDigits c' (List.mem_cons_of_mem c hMem)
      rw [Nat.ofDigitChars_cons, Nat.mul_comm] at hFits ⊢
      have hHere := Nat.lt_of_le_of_lt (le_ofDigitChars digits _) hFits
      rw [List.cons_append, parseDigits, hDigit]
      simp only [if_pos hHere]
      exact ih hBehind hFits

theorem parseDigits_of_large {digits : List Char} (hDigits : ∀ c ∈ digits, c.isDigit = true)
    {value : Nat} (hValue : value < bound) (hLarge : bound ≤ Nat.ofDigitChars 10 digits value)
    (rest : List Char) : parseDigits value (digits ++ rest) = .error .tooLarge := by
  induction digits generalizing value with
  | nil => exact absurd hValue (Nat.not_lt.mpr hLarge)
  | cons c digits ih =>
      have hDigit := digitValue?_of_isDigit (hDigits c (List.mem_cons_self ..))
      have hBehind := fun c' hMem => hDigits c' (List.mem_cons_of_mem c hMem)
      rw [Nat.ofDigitChars_cons, Nat.mul_comm] at hLarge
      rw [List.cons_append, parseDigits, hDigit]
      simp only
      split
      · rename_i hHere
        exact ih hBehind hHere hLarge
      · rfl

theorem parseDigits_of_stray {c : Char} (h : c.isDigit = false) (value : Nat) (rest : List Char) :
    parseDigits value (c :: rest) = .error .invalidDigit := by
  rw [parseDigits, digitValue?_of_not_isDigit h]

/-!
# Words
-/

def unsigned : List Char → List Char
  | '+' :: cs => cs
  | cs => cs

theorem parse_of_unsigned {word : List Char} (h : unsigned word ≠ []) :
    parse word = parseDigits 0 (unsigned word) := by
  unfold parse
  split
  · exact absurd rfl h
  · exact absurd rfl h
  · rfl
  · rename_i c cs _ hPlus
    have hSame : unsigned (c :: cs) = c :: cs := by
      unfold unsigned
      split
      · rename_i hEq
        cases hEq
        cases cs with
        | nil => exact absurd rfl h
        | cons next cs => exact (hPlus next cs rfl rfl).elim
      · rfl
    rw [hSame]

/-- At least one decimal digit, behind one plus sign or none, and the number that it stands for. -/
def IsNumeral (word : List Char) (n : Nat) : Prop :=
  ∃ digits, digits ≠ [] ∧ (∀ c ∈ digits, c.isDigit = true) ∧
    (word = digits ∨ word = '+' :: digits) ∧ n = Nat.ofDigitChars 10 digits 0

/-- What is wrong with a word, where what comes first counts. -/
inductive IsFault : List Char → Fault → Prop
  | empty : IsFault [] .empty
  | sign : IsFault ['+'] .invalidDigit
  | stray {word digits rest : List Char} {c : Char} (hWord : unsigned word = digits ++ c :: rest)
      (hDigits : ∀ c' ∈ digits, c'.isDigit = true) (hFits : Nat.ofDigitChars 10 digits 0 < bound)
      (hStray : c.isDigit = false) : IsFault word .invalidDigit
  | large {word digits rest : List Char} (hWord : unsigned word = digits ++ rest)
      (hDigits : ∀ c ∈ digits, c.isDigit = true)
      (hLarge : bound ≤ Nat.ofDigitChars 10 digits 0) : IsFault word .tooLarge

theorem parse_of_isFault {word : List Char} {fault : Fault} (h : IsFault word fault) :
    parse word = .error fault := by
  cases h with
  | empty => rfl
  | sign => rfl
  | stray hWord hDigits hFits hStray =>
      rw [parse_of_unsigned (by simp [hWord]), hWord, parseDigits_append hDigits hFits,
        parseDigits_of_stray hStray]
  | large hWord hDigits hLarge =>
      rename_i digits rest
      have hZero : 0 < bound := by decide
      have hSome : digits ≠ [] := by
        rintro rfl
        exact absurd hZero (Nat.not_lt.mpr hLarge)
      rw [parse_of_unsigned (by simp [hWord, hSome]), hWord,
        parseDigits_of_large hDigits hZero hLarge]

theorem unsigned_of_digits {digits : List Char} (h : ∀ c ∈ digits, c.isDigit = true) :
    unsigned digits = digits := by
  unfold unsigned
  split
  · exact absurd (h '+' (List.mem_cons_self ..)) (by decide)
  · rfl

theorem IsNumeral.exists_unsigned {word : List Char} {n : Nat} (h : IsNumeral word n) :
    unsigned word ≠ [] ∧ (∀ c ∈ unsigned word, c.isDigit = true) ∧
      n = Nat.ofDigitChars 10 (unsigned word) 0 := by
  rcases h with ⟨digits, hSome, hDigits, rfl | rfl, hValue⟩
  · rw [unsigned_of_digits hDigits]
    exact ⟨hSome, hDigits, hValue⟩
  · exact ⟨hSome, hDigits, hValue⟩

theorem isNumeral_of_unsigned {word : List Char} (hSome : unsigned word ≠ [])
    (hDigits : ∀ c ∈ unsigned word, c.isDigit = true) :
    IsNumeral word (Nat.ofDigitChars 10 (unsigned word) 0) := by
  refine ⟨unsigned word, hSome, hDigits, ?_, rfl⟩
  unfold unsigned
  split
  · exact Or.inr rfl
  · exact Or.inl rfl

theorem parse_of_isNumeral {word : List Char} {n : Nat} (h : IsNumeral word n) (hFits : n < bound) :
    parse word = .ok n := by
  rcases h.exists_unsigned with ⟨hSome, hDigits, rfl⟩
  have hRun := parseDigits_append hDigits hFits []
  rw [List.append_nil] at hRun
  rw [parse_of_unsigned hSome, hRun]
  rfl

theorem isNumeral_or_isFault (word : List Char) :
    (∃ n, IsNumeral word n ∧ n < bound) ∨ ∃ fault, IsFault word fault := by
  have hSplit := List.takeWhile_append_dropWhile (p := Char.isDigit) (l := unsigned word)
  have hDigits : ∀ c ∈ (unsigned word).takeWhile Char.isDigit, c.isDigit = true :=
    List.all_eq_true.mp List.all_takeWhile
  by_cases hFits : Nat.ofDigitChars 10 ((unsigned word).takeWhile Char.isDigit) 0 < bound
  · cases hRest : (unsigned word).dropWhile Char.isDigit with
    | nil =>
        rw [hRest, List.append_nil] at hSplit
        rw [hSplit] at hDigits hFits
        by_cases hSome : unsigned word = []
        · right
          unfold unsigned at hSome
          split at hSome
          · rw [hSome]
            exact ⟨_, .sign⟩
          · rw [hSome]
            exact ⟨_, .empty⟩
        · exact Or.inl ⟨_, isNumeral_of_unsigned hSome hDigits, hFits⟩
    | cons c rest =>
        rw [hRest] at hSplit
        have hStray : c.isDigit = false := by
          have hHead := List.head?_dropWhile_not Char.isDigit (unsigned word)
          rw [hRest] at hHead
          simpa using hHead
        exact Or.inr ⟨_, .stray hSplit.symm hDigits hFits hStray⟩
  · exact Or.inr ⟨_, .large hSplit.symm hDigits (Nat.not_lt.mp hFits)⟩

theorem parse_eq_ok_iff {word : List Char} {n : Nat} :
    parse word = .ok n ↔ IsNumeral word n ∧ n < bound := by
  constructor
  · intro h
    rcases isNumeral_or_isFault word with ⟨m, hNumeral, hFits⟩ | ⟨fault, hFault⟩
    · cases (parse_of_isNumeral hNumeral hFits).symm.trans h
      exact ⟨hNumeral, hFits⟩
    · cases (parse_of_isFault hFault).symm.trans h
  · intro h
    exact parse_of_isNumeral h.1 h.2

theorem parse_eq_error_iff {word : List Char} {fault : Fault} :
    parse word = .error fault ↔ IsFault word fault := by
  constructor
  · intro h
    rcases isNumeral_or_isFault word with ⟨m, hNumeral, hFits⟩ | ⟨other, hFault⟩
    · cases (parse_of_isNumeral hNumeral hFits).symm.trans h
    · cases (parse_of_isFault hFault).symm.trans h
      exact hFault
  · exact parse_of_isFault

end Natural
end CatalogAudit
