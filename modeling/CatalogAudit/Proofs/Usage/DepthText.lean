import CatalogAudit.Proofs.Decimal.Numerals
import CatalogAudit.Proofs.Text.Words
import CatalogAudit.Usage.Depth

/-!
# Depths as texts

A depth is given as one of three words for no bound or as a numeral, with blanks around it. Only
the words have a case, so a numeral is read as it is written. Whatever else is given counts as the
fallback, and the fault tells why it could not be read.
-/

namespace CatalogAudit

namespace Natural

/-!
# Numerals in lower case
-/

theorem digitValue?_toLower (c : Char) : digitValue? c.toLower = digitValue? c := by
  by_cases hUpper : 65 ≤ c.toNat ∧ c.toNat ≤ 90
  · have hLower := Text.toNat_toLower c
    rw [if_pos hUpper] at hLower
    have hNone (d : Char) (hLetter : 65 ≤ d.toNat) : digitValue? d = none := by
      apply digitValue?_of_not_isDigit
      rw [← Bool.not_eq_true]
      intro hDigit
      have hRange := toNat_of_isDigit hDigit
      omega
    rw [hNone c hUpper.1, hNone c.toLower (by omega)]
  · have hSame := Text.toNat_toLower c
    rw [if_neg hUpper, Char.toNat_inj] at hSame
    rw [hSame]

theorem toLower_eq_plus_iff {c : Char} : c.toLower = '+' ↔ c = '+' := by
  have hPlus : '+'.toNat = 43 := rfl
  rw [← Char.toNat_inj, ← Char.toNat_inj, Text.toNat_toLower, hPlus]
  split
  · omega
  · rfl

theorem parseDigits_lowerAscii (value : Nat) (cs : List Char) :
    parseDigits value (Text.lowerAscii cs) = parseDigits value cs := by
  induction cs generalizing value with
  | nil => rfl
  | cons c cs ih =>
      have hCons : Text.lowerAscii (c :: cs) = c.toLower :: Text.lowerAscii cs := rfl
      rw [hCons, parseDigits, parseDigits, digitValue?_toLower]
      simp only [ih]

theorem unsigned_lowerAscii (word : List Char) :
    unsigned (Text.lowerAscii word) = Text.lowerAscii (unsigned word) := by
  cases word with
  | nil => rfl
  | cons c cs =>
      by_cases hPlus : c = '+'
      · subst hPlus
        rfl
      · have hLower : c.toLower ≠ '+' := fun hEq => hPlus (toLower_eq_plus_iff.mp hEq)
        have hCons : Text.lowerAscii (c :: cs) = c.toLower :: Text.lowerAscii cs := rfl
        rw [hCons]
        simp [unsigned, hPlus, hLower, hCons]

theorem parse_lowerAscii (word : List Char) : parse (Text.lowerAscii word) = parse word := by
  by_cases hNone : unsigned word = []
  · unfold unsigned at hNone
    split at hNone
    · rw [hNone]
      rfl
    · rw [hNone]
      rfl
  · have hLower : unsigned (Text.lowerAscii word) ≠ [] := by
      rw [unsigned_lowerAscii]
      simpa [Text.lowerAscii] using hNone
    rw [parse_of_unsigned hNone, parse_of_unsigned hLower, unsigned_lowerAscii,
      parseDigits_lowerAscii]

end Natural

namespace DepthBound

/-!
# Words for no bound
-/

def IsUnboundedWord (word : List Char) : Prop :=
  ∃ name ∈ ["full", "none", "unbounded"], Text.EqUpToCase word name.toList

theorem lowerAscii_of_mem_unboundedWords :
    ∀ name ∈ unboundedWords, Text.lowerAscii name.toList = name.toList := by
  decide

theorem isUnboundedWord_iff {word : List Char} :
    IsUnboundedWord word ↔ String.ofList (Text.lowerAscii word) ∈ unboundedWords := by
  constructor
  · intro h
    rcases h with ⟨name, hName, hWord⟩
    have hSame := Text.lowerAscii_eq_iff.mpr hWord
    rw [lowerAscii_of_mem_unboundedWords name hName] at hSame
    rw [hSame, String.ofList_toList]
    exact hName
  · intro h
    refine ⟨_, h, Text.lowerAscii_eq_iff.mp ?_⟩
    rw [lowerAscii_of_mem_unboundedWords _ h, String.toList_ofList]

theorem numberFault_of_mem_unboundedWords :
    ∀ name ∈ unboundedWords, Natural.parse name.toList = .error .invalidDigit := by
  decide

theorem IsUnboundedWord.not_isNumeral {word : List Char} (h : IsUnboundedWord word) {n : Nat}
    (hFits : n < Natural.bound) : ¬Natural.IsNumeral word n := by
  intro hNumeral
  have hNumber := Natural.parse_of_isNumeral hNumeral hFits
  have hFault := numberFault_of_mem_unboundedWords _ (isUnboundedWord_iff.mp h)
  rw [String.toList_ofList, Natural.parse_lowerAscii] at hFault
  cases hNumber.symm.trans hFault

/-!
# What a text is read as
-/

section Choice

variable {text : String} {n : Nat} {fault : Natural.Fault}

theorem choose_of_parse_ok {depth : DepthBound} (h : parse text = .ok depth)
    (configured : Option Nat) : choose (some text) configured = (depth, none) := by
  simp only [choose, h]

theorem choose_of_parse_error {fault : Fault} (h : parse text = .error fault)
    (configured : Option Nat) : choose (some text) configured = (.bounded 2, some fault) := by
  simp only [choose, h, fallback]

theorem choose_of_isUnboundedWord (h : IsUnboundedWord (Text.trim text.toList))
    (configured : Option Nat) : choose (some text) configured = (.unbounded, none) := by
  apply choose_of_parse_ok
  unfold parse
  exact if_pos (List.contains_iff_mem.mpr (isUnboundedWord_iff.mp h))

theorem not_contains_of_not_isUnboundedWord {word : List Char} (h : ¬IsUnboundedWord word) :
    ¬unboundedWords.contains (String.ofList (Text.lowerAscii word)) = true := by
  rw [List.contains_iff_mem, ← isUnboundedWord_iff]
  exact h

theorem choose_of_isNumeral (h : Natural.IsNumeral (Text.trim text.toList) n)
    (hFits : n < Natural.bound) (configured : Option Nat) :
    choose (some text) configured = (.bounded n, none) := by
  have hWord : ¬IsUnboundedWord (Text.trim text.toList) := fun hWord =>
    hWord.not_isNumeral hFits h
  apply choose_of_parse_ok
  unfold parse
  simp only [if_neg (not_contains_of_not_isUnboundedWord hWord), Natural.parse_lowerAscii,
    Natural.parse_of_isNumeral h hFits]

theorem choose_of_isFault (hWord : ¬IsUnboundedWord (Text.trim text.toList))
    (h : Natural.IsFault (Text.trim text.toList) fault) (configured : Option Nat) :
    choose (some text) configured = (.bounded 2, some ⟨[.depth text], .number fault⟩) := by
  apply choose_of_parse_error
  unfold parse
  simp only [if_neg (not_contains_of_not_isUnboundedWord hWord), Natural.parse_lowerAscii,
    Natural.parse_of_isFault h]

end Choice

/-- What is chosen for a text, of which `inner` is what is left without the blanks at its ends. -/
structure IsReading (text : String) (inner : List Char) (choice : DepthBound × Option Fault) :
    Prop where
  unbounded_iff : choice = (.unbounded, none) ↔ IsUnboundedWord inner
  bounded_iff : ∀ n, choice = (.bounded n, none) ↔ Natural.IsNumeral inner n ∧ n ≤ Nat.pow 2 64 - 1
  otherwise : ¬IsUnboundedWord inner → (∀ n, Natural.IsNumeral inner n → Nat.pow 2 64 - 1 < n) →
    ∃ fault, Natural.IsFault inner fault ∧
      choice = (.bounded 2, some ⟨[.depth text], .number fault⟩)

theorem lt_bound_iff {n : Nat} : n < Natural.bound ↔ n ≤ Nat.pow 2 64 - 1 :=
  Nat.lt_iff_le_pred (by decide)

theorem isReading_choose_trim (text : String) (configured : Option Nat) :
    IsReading text (Text.trim text.toList) (choose (some text) configured) := by
  -- A text is a word for no bound, or a numeral that fits, or has a fault, and only one of these.
  by_cases hWord : IsUnboundedWord (Text.trim text.toList)
  · have hChoice := choose_of_isUnboundedWord hWord configured
    constructor
    case unbounded_iff => exact iff_of_true hChoice hWord
    case bounded_iff =>
      intro n
      rw [hChoice]
      refine iff_of_false (by simp) ?_
      intro h
      exact hWord.not_isNumeral (lt_bound_iff.mpr h.2) h.1
    case otherwise =>
      intro hOther
      exact absurd hWord hOther
  · rcases Natural.isNumeral_or_isFault (Text.trim text.toList) with
      ⟨n, hNumeral, hFits⟩ | ⟨fault, hFault⟩
    · have hChoice := choose_of_isNumeral hNumeral hFits configured
      constructor
      case unbounded_iff =>
        rw [hChoice]
        exact iff_of_false (by simp) hWord
      case bounded_iff =>
        intro m
        constructor
        · intro h
          cases hChoice.symm.trans h
          exact ⟨hNumeral, lt_bound_iff.mp hFits⟩
        · intro h
          exact choose_of_isNumeral h.1 (lt_bound_iff.mpr h.2) configured
      case otherwise =>
        intro _ hLarge
        exact absurd (lt_bound_iff.mp hFits) (Nat.not_le.mpr (hLarge n hNumeral))
    · have hChoice := choose_of_isFault hWord hFault configured
      constructor
      case unbounded_iff =>
        rw [hChoice]
        exact iff_of_false (by simp) hWord
      case bounded_iff =>
        intro n
        rw [hChoice]
        refine iff_of_false (by simp) ?_
        intro h
        have hNumber := Natural.parse_of_isNumeral h.1 (lt_bound_iff.mpr h.2)
        cases hNumber.symm.trans (Natural.parse_of_isFault hFault)
      case otherwise =>
        intro _ _
        exact ⟨fault, hFault, hChoice⟩

/--
A given text is read without its blanks at the ends as a word for no bound, up to case, or as a
numeral below the bound for numbers, and otherwise the choice is two passes and the fault of the
text. The settings count only where no text is given.
-/
theorem isReading_choose (text : String) :
    (∃ inner, Text.IsTrimmed text.toList inner ∧
      ∀ configured, IsReading text inner (choose (some text) configured)) ∧
    (∀ configured other, choose (some text) configured = choose (some text) other) ∧
    ∀ configured, choose none configured = (configured.elim .unbounded .bounded, none) := by
  refine ⟨⟨Text.trim text.toList, Text.isTrimmed_trim _, isReading_choose_trim text⟩, ?_, ?_⟩
  · intro configured other
    simp only [choose]
  · intro configured
    cases configured with
    | none => rfl
    | some n => rfl

example : choose (some "\t+007 ") (some 3) = (.bounded 7, none) := by
  decide

example : choose (some "18446744073709551616") none =
    (.bounded 2, some ⟨[.depth "18446744073709551616"], .number .tooLarge⟩) := by
  decide

end DepthBound
end CatalogAudit
