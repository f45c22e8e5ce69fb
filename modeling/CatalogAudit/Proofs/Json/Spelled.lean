import CatalogAudit.Proofs.Decimal.Numerals
import CatalogAudit.Proofs.Json.Skipped

/-!
# Typed reading of texts with blanks

A typed reader takes a value as it is printed, with blanks before it, between its items, and around
the colons of its members. Members that a record does not know are passed over, whatever value they
have.
-/

namespace CatalogAudit
namespace Json

open Utf8 (Bytes encode)

/-- The reader takes the text for this value, if the text ends there. -/
def ReadsBefore (read : Reader α) (text : Bytes) (value : α) : Prop :=
  ∀ rest place, EndsValue rest → ∃ place', read ⟨text ++ rest, place⟩ = .ok (value, ⟨rest, place'⟩)

def PassesBlanks (read : Reader α) : Prop :=
  ∀ blanks rest place, IsBlank blanks →
    ∃ place', read ⟨blanks ++ rest, place⟩ = read ⟨rest, place'⟩

/-- The reader takes the text for this value, whatever blanks stand before it. -/
structure ReadsSpaced (read : Reader α) (text : Bytes) (value : α) : Prop where
  passesBlanks : PassesBlanks read
  readsBefore : ReadsBefore read text value

theorem Reads.readsBefore {read : Reader α} {text : Bytes} {value : α}
    (h : Reads read text value) : ReadsBefore read text value :=
  fun rest place _ => h rest place

theorem passesBlanks_atValue (read : UInt8 → Reader α) : PassesBlanks (atValue read) := by
  intro blanks rest place hBlanks
  rcases skipBlank_append hBlanks rest place with ⟨place', hSkip⟩
  refine ⟨place', ?_⟩
  unfold atValue
  rw [hSkip]

theorem passesBlanks_readOptional (read : Reader α) : PassesBlanks (readOptional read) := by
  intro blanks rest place hBlanks
  rcases skipBlank_append hBlanks rest place with ⟨place', hSkip⟩
  refine ⟨place', ?_⟩
  unfold readOptional
  rw [hSkip]

theorem ReadsSpaced.exists_read {read : Reader α} {text : Bytes} {value : α}
    (h : ReadsSpaced read text value) {blanks : Bytes} (hBlanks : IsBlank blanks) {rest : Bytes}
    (hRest : EndsValue rest) (place : Place) :
    ∃ place', read ⟨blanks ++ (text ++ rest), place⟩ = .ok (value, ⟨rest, place'⟩) := by
  rcases h.passesBlanks blanks (text ++ rest) place hBlanks with ⟨middle, hSame⟩
  rcases h.readsBefore rest middle hRest with ⟨place', hRead⟩
  exact ⟨place', hSame.trans hRead⟩

/-!
# Texts, flags, and what may be missing
-/

theorem readsSpaced_readText (s : String) : ReadsSpaced readText (printed (.string s)) s :=
  ⟨passesBlanks_atValue _, (reads_readText s).readsBefore⟩

theorem readsSpaced_readFlag (b : Bool) : ReadsSpaced readFlag (printed (.bool b)) b := by
  refine ⟨passesBlanks_atValue _, ?_⟩
  intro rest place _
  cases b with
  | true => exact ⟨_, rfl⟩
  | false => exact ⟨_, rfl⟩

theorem readsSpaced_readOptional_null (read : Reader α) :
    ReadsSpaced (readOptional read) (printed .null) none := by
  refine ⟨passesBlanks_readOptional read, ?_⟩
  intro rest place _
  exact ⟨_, rfl⟩

theorem ReadsSpaced.readOptional {read : Reader α} {text : Bytes} {value : α}
    (h : ReadsSpaced read text value)
    (hBegin : ∃ b more, text = b :: more ∧ Cursor.isBlankByte b = false ∧ b ≠ 0x6E) :
    ReadsSpaced (readOptional read) text (some value) := by
  rcases hBegin with ⟨b, more, rfl, hBlank, hNull⟩
  refine ⟨passesBlanks_readOptional read, ?_⟩
  intro rest place hRest
  rcases h.readsBefore rest place hRest with ⟨place', hRead⟩
  refine ⟨place', ?_⟩
  unfold Json.readOptional
  rw [List.cons_append] at hRead ⊢
  rw [skipBlank_of_not_blank hBlank]
  dsimp only
  split
  case h_1 rest' hWord =>
    exact absurd (List.cons.inj hWord).1 hNull
  case h_2 =>
    rw [hRead]
    rfl

/-!
# Sizes
-/

theorem digit?_of_isDigit {c : Char} (h : c.isDigit = true) :
    String.utf8EncodeChar c = [UInt8.ofNat c.toNat] ∧
      digit? (UInt8.ofNat c.toNat) = some (c.toNat - '0'.toNat) := by
  have hRange := Natural.toNat_of_isDigit h
  have hNat : (UInt8.ofNat c.toNat).toNat = c.toNat :=
    UInt8.toNat_ofNat_of_lt' (show c.toNat < 256 by omega)
  refine ⟨Utf8.utf8EncodeChar_of_lt (by omega), ?_⟩
  unfold digit?
  rw [if_pos, hNat]
  · rfl
  · simp only [UInt8.le_iff_toNat_le, hNat]
    exact hRange

theorem digit_ne_zero {c : Char} (h : c.isDigit = true) (hNot : c ≠ '0') :
    c.toNat - '0'.toNat ≠ 0 := by
  intro hZero
  have hRange := Natural.toNat_of_isDigit h
  have hChar : '0'.toNat = 48 := rfl
  exact hNot (Char.toNat_inj.mp (by omega))

/-- As long as a number fits, all its digits are taken into the significand. -/
theorem integerDigits_append {cs : List Char} (hDigits : ∀ c ∈ cs, c.isDigit = true) (value : Nat)
    (hBound : Nat.ofDigitChars 10 cs value < natBound) {rest : Bytes} (hRest : EndsDigits rest)
    (place : Place) :
    ∃ place', integerDigits ⟨value, 0⟩ (encode cs ++ rest) place =
      (⟨Nat.ofDigitChars 10 cs value, 0⟩, ⟨rest, place'⟩) := by
  induction cs generalizing value place with
  | nil =>
      refine ⟨place, ?_⟩
      rw [Utf8.encode_nil, List.nil_append, Nat.ofDigitChars_nil]
      cases rest with
      | nil => rfl
      | cons b rest =>
          have hStop : digit? b = none := hRest
          rw [integerDigits, hStop]
  | cons c cs ih =>
      obtain ⟨hBytes, hDigit⟩ := digit?_of_isDigit (hDigits c (List.mem_cons_self ..))
      rw [Nat.ofDigitChars_cons] at hBound ⊢
      have hFits : value * 10 + (c.toNat - '0'.toNat) < natBound := by
        have hLe := Natural.le_ofDigitChars cs (10 * value + (c.toNat - '0'.toNat))
        omega
      have hPush : Significand.push ⟨value, 0⟩ (c.toNat - '0'.toNat) =
          ⟨10 * value + (c.toNat - '0'.toNat), 0⟩ := by
        unfold Significand.push
        rw [if_pos ⟨rfl, hFits⟩, Nat.mul_comm value 10]
      rcases ih (fun c' hMem => hDigits c' (List.mem_cons_of_mem c hMem)) _ hBound
        (place.after (UInt8.ofNat c.toNat)) with ⟨place', hMore⟩
      refine ⟨place', ?_⟩
      rw [Utf8.encode_cons, hBytes, List.cons_append, List.nil_append, List.cons_append,
        integerDigits]
      simp only [hDigit, hPush]
      exact hMore

theorem toDigits_eq_cons {n : Nat} (h : n ≠ 0) :
    ∃ c cs, Nat.toDigits 10 n = c :: cs ∧ c ≠ '0' := by
  induction n using Nat.strongRecOn with
  | ind n ih =>
      by_cases hSmall : n < 10
      · exact ⟨n.digitChar, [], Nat.toDigits_of_lt_base hSmall,
          fun hZero => h (Nat.digitChar_eq_zero.mp hZero)⟩
      · rcases ih (n / 10) (by omega) (by omega) with ⟨c, cs, hDigits, hFirst⟩
        refine ⟨c, cs ++ [(n % 10).digitChar], ?_, hFirst⟩
        rw [Nat.toDigits_of_base_le (by decide) (Nat.le_of_not_lt hSmall), hDigits]
        rfl

theorem readAfterInteger_end {rest : Bytes} (hRest : EndsValue rest) (n : Nat) (place : Place) :
    readAfterInteger false ⟨n, 0⟩ ⟨rest, place⟩ = .ok (.natural n, ⟨rest, place⟩) := by
  unfold readAfterInteger
  split
  case h_1 rest' hPoint =>
    cases hPoint
    exact absurd rfl (not_number_of_endsValueByte _ hRest).2.1
  case h_2 =>
    rw [atExponent_of_endsValue hRest]
    rfl

theorem readNumber_append {n : Nat} (hBound : n < natBound) {rest : Bytes} (hRest : EndsValue rest)
    (place : Place) :
    ∃ place', readNumber false ⟨encode (Nat.toDigits 10 n) ++ rest, place⟩ =
      .ok (.natural n, ⟨rest, place'⟩) := by
  by_cases hZero : n = 0
  · subst hZero
    refine ⟨place.after 0x30, ?_⟩
    rw [← readAfterInteger_end hRest 0]
    show readNumber false ⟨0x30 :: rest, place⟩ = _
    have hDigit : digit? 0x30 = some 0 := rfl
    unfold readNumber
    simp only [hDigit, Cursor.skip]
    cases rest with
    | nil => rfl
    | cons b rest =>
        have hStop : digit? b = none := hRest.endsDigits
        simp [hStop]
  · rcases toDigits_eq_cons hZero with ⟨c, cs, hDigits, hFirst⟩
    have hAll : ∀ c' ∈ c :: cs, c'.isDigit = true := by
      intro c' hMem
      rw [← hDigits] at hMem
      exact Nat.isDigit_of_mem_toDigits (by decide) (by decide) hMem
    have hValue : Nat.ofDigitChars 10 cs (c.toNat - '0'.toNat) = n := by
      have hWhole := Nat.ofDigitChars_ten_toDigits (n := n)
      rw [hDigits, Nat.ofDigitChars_cons] at hWhole
      simpa using hWhole
    obtain ⟨hBytes, hDigit⟩ := digit?_of_isDigit (hAll c (List.mem_cons_self ..))
    have hNonzero := digit_ne_zero (hAll c (List.mem_cons_self ..)) hFirst
    rcases integerDigits_append (fun c' hMem => hAll c' (List.mem_cons_of_mem c hMem))
      (c.toNat - '0'.toNat) (by rw [hValue]; exact hBound) hRest.endsDigits
      (place.after (UInt8.ofNat c.toNat)) with ⟨place', hMore⟩
    refine ⟨place', ?_⟩
    rw [hValue] at hMore
    rw [hDigits, Utf8.encode_cons, hBytes, List.cons_append, List.nil_append, List.cons_append]
    unfold readNumber
    simp only [hDigit]
    rw [hMore]
    exact readAfterInteger_end hRest n place'

theorem printed_natural (n : Nat) :
    printed (.number (.natural n)) = encode (Nat.toDigits 10 n) := by
  show encode (toString n).toList = _
  rw [Nat.toString_eq_repr, Nat.toList_repr]

theorem exists_digit_of_natural (n : Nat) :
    ∃ b more, printed (.number (.natural n)) = b :: more ∧ (digit? b).isSome := by
  rw [printed_natural]
  cases hDigits : Nat.toDigits 10 n with
  | nil => exact absurd hDigits Nat.toDigits_ne_nil
  | cons c cs =>
      have hDigit : c.isDigit = true :=
        Nat.isDigit_of_mem_toDigits (by decide) (by decide) (hDigits ▸ List.mem_cons_self ..)
      obtain ⟨hBytes, hValue⟩ := digit?_of_isDigit hDigit
      refine ⟨UInt8.ofNat c.toNat, encode cs, ?_, by rw [hValue]; rfl⟩
      rw [Utf8.encode_cons, hBytes]
      rfl

theorem readsSpaced_readSize {n : Nat} (hBound : n < natBound) :
    ReadsSpaced readSize (printed (.number (.natural n))) n := by
  refine ⟨passesBlanks_atValue _, ?_⟩
  intro rest place hRest
  rcases readNumber_append hBound hRest place with ⟨place', hNumber⟩
  rcases exists_digit_of_natural n with ⟨b, more, hPrinted, hDigit⟩
  have hMinus : b ≠ 0x2D := ne_of_digit hDigit rfl
  refine ⟨place', ?_⟩
  rw [← printed_natural, hPrinted, List.cons_append] at hNumber
  rw [hPrinted, List.cons_append]
  unfold readSize
  rw [atValue_of_not_blank (isBlankByte_of_digit hDigit)]
  simp only [hMinus, hDigit, if_false, if_true, hNumber]
  rfl

/-!
# Lists
-/

/-- An item behind blanks, the comma before it, and more blanks. -/
theorem nextItem_spaced (isFirst : Bool) {before between : Bytes} (hBefore : IsBlank before)
    (hBetween : IsBlank between) {b : UInt8} (hBlank : Cursor.isBlankByte b = false)
    (hEnd : b ≠ 0x5D) (rest : Bytes) (place : Place) :
    ∃ place', nextItem isFirst ⟨before ++ (separator isFirst ++ (between ++ b :: rest)), place⟩ =
      .ok (true, ⟨b :: rest, place'⟩) := by
  cases isFirst with
  | true =>
      rcases skipBlank_before (hBefore.append hBetween) hBlank rest place with ⟨place', hSkip⟩
      refine ⟨place', ?_⟩
      rw [List.append_assoc] at hSkip
      show nextItem true ⟨before ++ (between ++ b :: rest), place⟩ = _
      unfold nextItem
      simp only [hSkip, hEnd, if_false, if_true]
  | false =>
      rcases skipBlank_before hBefore (by decide : Cursor.isBlankByte 0x2C = false)
        (between ++ b :: rest) place with ⟨middle, hSkip⟩
      rcases skipBlank_before hBetween hBlank rest (middle.after 0x2C) with ⟨place', hNext⟩
      refine ⟨place', ?_⟩
      show nextItem false ⟨before ++ 0x2C :: (between ++ b :: rest), place⟩ = _
      unfold nextItem
      rw [hSkip]
      simp [Cursor.skip, hNext, hEnd]

theorem nextItem_closing (isFirst : Bool) {blanks : Bytes} (hBlanks : IsBlank blanks)
    (rest : Bytes) (place : Place) :
    ∃ place', nextItem isFirst ⟨blanks ++ 0x5D :: rest, place⟩ =
      .ok (false, ⟨0x5D :: rest, place'⟩) := by
  rcases skipBlank_before hBlanks (by decide : Cursor.isBlankByte 0x5D = false) rest place with
    ⟨place', hSkip⟩
  refine ⟨place', ?_⟩
  unfold nextItem
  rw [hSkip]
  rfl

section Items

variable {α β : Type} {read : Reader α} {IsItem : β → Bytes → Prop} {toItem : α → β}

theorem readItemsWith_append {xs : List α} (hItems : ∀ x ∈ xs, ∀ bytes, IsItem (toItem x) bytes →
      BeginsValue bytes ∧ ReadsBefore read bytes x) {isFirst : Bool} {inside : Bytes}
    (h : Separated IsItem isFirst (xs.map toItem) inside) {fuel : Nat}
    (hFuel : inside.length < fuel) (rest : Bytes) (place : Place) :
    ∃ place', readItemsWith read fuel isFirst ⟨inside ++ 0x5D :: rest, place⟩ =
      .ok (xs, ⟨rest, place'⟩) := by
  induction xs generalizing isFirst inside fuel place with
  | nil =>
      obtain ⟨fuel, rfl⟩ := Nat.exists_eq_add_one_of_ne_zero (Nat.ne_zero_of_lt hFuel)
      cases h with
      | nil hBlanks =>
          rcases nextItem_closing isFirst hBlanks rest place with ⟨middle, hNext⟩
          refine ⟨middle.after 0x5D, ?_⟩
          rw [readItemsWith, hNext]
          rfl
  | cons x xs ih =>
      obtain ⟨fuel, rfl⟩ := Nat.exists_eq_add_one_of_ne_zero (Nat.ne_zero_of_lt hFuel)
      cases h with
      | @cons _ _ _ before between bytes inside hBefore hBetween hItem hRest =>
          rcases hItems x (List.mem_cons_self ..) bytes hItem with
            ⟨⟨b, more, rfl, hBlank, hEnd⟩, hRead⟩
          rcases nextItem_spaced isFirst hBefore hBetween hBlank hEnd
            (more ++ (inside ++ 0x5D :: rest)) place with ⟨first, hNext⟩
          rcases hRead (inside ++ 0x5D :: rest) first (hRest.endsValue (by decide) rest) with
            ⟨second, hValue⟩
          rcases ih (fun y hMem => hItems y (List.mem_cons_of_mem x hMem)) hRest
            (show inside.length < fuel by
              simp only [List.length_append, List.length_cons] at hFuel
              omega) second with ⟨third, hMore⟩
          refine ⟨third, ?_⟩
          have hInput : before ++ (separator isFirst ++ (between ++ (b :: more ++ inside))) ++
              0x5D :: rest = before ++ (separator isFirst ++ (between ++
                b :: (more ++ (inside ++ 0x5D :: rest)))) := by
            simp only [List.append_assoc, List.cons_append]
          rw [List.cons_append] at hValue
          rw [hInput, readItemsWith, hNext]
          simp only [bind, Except.bind, if_true, hValue, hMore]
          rfl

theorem readsSpaced_readList {xs : List α} (hItems : ∀ x ∈ xs, ∀ bytes, IsItem (toItem x) bytes →
      BeginsValue bytes ∧ ReadsBefore read bytes x) {inside : Bytes}
    (h : Separated IsItem true (xs.map toItem) inside) :
    ReadsSpaced (readList read) (0x5B :: (inside ++ [0x5D])) xs := by
  refine ⟨passesBlanks_atValue _, ?_⟩
  intro rest place _
  have hInput : 0x5B :: (inside ++ [0x5D]) ++ rest = 0x5B :: (inside ++ 0x5D :: rest) := by
    simp only [List.append_assoc, List.cons_append, List.nil_append]
  rw [hInput]
  unfold readList
  rw [atValue_of_not_blank rfl, if_pos rfl]
  apply readItemsWith_append hItems h
  simp only [List.length_append, List.length_cons]
  omega

end Items

end Json
end CatalogAudit
