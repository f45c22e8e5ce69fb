import CatalogAudit.Proofs.Json.Layout

/-!
# Values that are passed over

A reader that passes over a value stops right behind it, whatever the value is. A number is the
only value whose end has to be told from what follows.
-/

namespace CatalogAudit
namespace Json

open Utf8 (Bytes)

/-!
# Digits
-/

def EndsDigits : Bytes → Prop
  | [] => True
  | b :: _ => digit? b = none

theorem EndsValue.endsDigits {rest : Bytes} (h : EndsValue rest) : EndsDigits rest := by
  cases rest with
  | nil => trivial
  | cons b rest => exact (not_number_of_endsValueByte b h).1

theorem skipDigits_append {digits : Bytes} (h : ∀ b ∈ digits, (digit? b).isSome) {rest : Bytes}
    (hRest : EndsDigits rest) (place : Place) :
    ∃ place', skipDigits (digits ++ rest) place = ⟨rest, place'⟩ := by
  induction digits generalizing place with
  | nil =>
      refine ⟨place, ?_⟩
      cases rest with
      | nil => rfl
      | cons b rest =>
          have hStop : digit? b = none := hRest
          rw [List.nil_append, skipDigits, hStop]
          rfl
  | cons b digits ih =>
      rcases ih (fun b' hMem => h b' (List.mem_cons_of_mem b hMem)) (place.after b) with
        ⟨place', hSkip⟩
      refine ⟨place', ?_⟩
      rw [List.cons_append, skipDigits, if_pos (h b (List.mem_cons_self ..)), hSkip]

theorem ne_of_digit {b letter : UInt8} (h : (digit? b).isSome) (hLetter : digit? letter = none) :
    b ≠ letter := by
  rintro rfl
  rw [hLetter] at h
  cases h

/-!
# Numbers
-/

theorem atExponent_of_endsValue {rest : Bytes} (h : EndsValue rest) (place : Place) :
    atExponent ⟨rest, place⟩ = false := by
  cases rest with
  | nil => rfl
  | cons b rest =>
      obtain ⟨_, _, hLower, hUpper⟩ := not_number_of_endsValueByte b h
      simp [atExponent, hLower, hUpper]

theorem skipExponent_append {letter : UInt8} {sign digits rest : Bytes}
    (hSign : sign = [] ∨ sign = [0x2B] ∨ sign = [0x2D]) (hDigits : IsDigits digits)
    (hRest : EndsDigits rest) (place : Place) :
    ∃ place', skipExponent ⟨letter :: (sign ++ digits) ++ rest, place⟩ = .ok ⟨rest, place'⟩ := by
  rcases hDigits.exists_cons with ⟨b, more, rfl, hDigit, _⟩
  have hSkip := skipDigits_append hDigits.2 hRest
  have hPlus : b ≠ 0x2B := ne_of_digit hDigit rfl
  have hMinus : b ≠ 0x2D := ne_of_digit hDigit rfl
  unfold skipExponent
  rcases hSign with rfl | rfl | rfl
  · rcases hSkip (place.after letter) with ⟨place', hSkip⟩
    refine ⟨place', ?_⟩
    simp only [List.cons_append] at hSkip
    simp [Cursor.skip, hPlus, hMinus, hDigit, hSkip]
  · rcases hSkip ((place.after letter).after 0x2B) with ⟨place', hSkip⟩
    refine ⟨place', ?_⟩
    simp only [List.cons_append] at hSkip
    simp [Cursor.skip, hDigit, hSkip]
  · rcases hSkip ((place.after letter).after 0x2D) with ⟨place', hSkip⟩
    refine ⟨place', ?_⟩
    simp only [List.cons_append] at hSkip
    simp [Cursor.skip, hDigit, hSkip]

theorem skip_exponent_append {exponent rest : Bytes} (hExponent : IsExponent exponent)
    (hRest : EndsValue rest) (place : Place) :
    ∃ place', (if atExponent ⟨exponent ++ rest, place⟩ then skipExponent ⟨exponent ++ rest, place⟩
      else .ok ⟨exponent ++ rest, place⟩) = .ok ⟨rest, place'⟩ := by
  rcases hExponent with rfl | ⟨letter, sign, digits, hLetter, hSign, hDigits, rfl⟩
  · refine ⟨place, ?_⟩
    rw [List.nil_append, atExponent_of_endsValue hRest]
    rfl
  · have hAt : atExponent ⟨letter :: (sign ++ digits) ++ rest, place⟩ = true := by
      rcases hLetter with rfl | rfl
      · rfl
      · rfl
    rw [if_pos hAt]
    exact skipExponent_append hSign hDigits hRest.endsDigits place

theorem endsDigits_fraction_append {fraction exponent rest : Bytes}
    (hFraction : IsFraction fraction) (hExponent : IsExponent exponent) (hRest : EndsValue rest) :
    EndsDigits (fraction ++ (exponent ++ rest)) := by
  rcases hFraction with rfl | ⟨_, _, rfl⟩
  · rcases hExponent with rfl | ⟨_, _, _, rfl | rfl, _, _, rfl⟩
    · exact hRest.endsDigits
    · exact (by decide : digit? 0x65 = none)
    · exact (by decide : digit? 0x45 = none)
  · exact (by decide : digit? 0x2E = none)

theorem skipAfterInteger_of_no_point {c : Cursor} (h : c.rest.head? ≠ some 0x2E) :
    skipAfterInteger c = if atExponent c then skipExponent c else .ok c := by
  unfold skipAfterInteger
  split
  case h_1 rest hRest =>
    rw [hRest] at h
    exact absurd rfl h
  case h_2 => rfl

theorem skipAfterInteger_append {fraction exponent rest : Bytes} (hFraction : IsFraction fraction)
    (hExponent : IsExponent exponent) (hRest : EndsValue rest) (place : Place) :
    ∃ place', skipAfterInteger ⟨fraction ++ (exponent ++ rest), place⟩ = .ok ⟨rest, place'⟩ := by
  rcases hFraction with rfl | ⟨digits, hDigits, rfl⟩
  · have hHead : (exponent ++ rest).head? ≠ some 0x2E := by
      rcases hExponent with rfl | ⟨_, _, _, rfl | rfl, _, _, rfl⟩
      · cases rest with
        | nil => exact Option.some_ne_none _ ∘ Eq.symm
        | cons b rest =>
            intro h
            exact (not_number_of_endsValueByte b hRest).2.1 (Option.some.inj h)
      · exact fun h => absurd (Option.some.inj h) (by decide)
      · exact fun h => absurd (Option.some.inj h) (by decide)
    rw [List.nil_append, skipAfterInteger_of_no_point hHead]
    exact skip_exponent_append hExponent hRest place
  · rcases hDigits.exists_cons with ⟨b, more, rfl, hDigit, _⟩
    rcases skipDigits_append hDigits.2 (endsDigits_fraction_append (Or.inl rfl) hExponent hRest)
      (place.after 0x2E) with ⟨middle, hSkip⟩
    rcases skip_exponent_append hExponent hRest middle with ⟨place', hExponent⟩
    refine ⟨place', ?_⟩
    simp only [List.cons_append, List.nil_append] at hSkip
    simp only [skipAfterInteger, List.cons_append, Cursor.skip, hDigit, if_true, hSkip]
    exact hExponent

theorem digit?_eq_zero_iff {b : UInt8} : digit? b = some 0 ↔ b = 0x30 := by
  constructor
  · intro h
    unfold digit? at h
    split at h
    case isTrue hRange =>
      have hLow := UInt8.le_iff_toNat_le.mp hRange.1
      have hZero : b.toNat - 0x30 = 0 := Option.some.inj h
      apply UInt8.toNat_inj.mp
      exact Nat.le_antisymm (Nat.sub_eq_zero_iff_le.mp hZero) hLow
    case isFalse => cases h
  · rintro rfl
    rfl

theorem skipNumber_append {number rest : Bytes} (hNumber : IsNumber number) (hRest : EndsValue rest)
    (place : Place) : ∃ place', skipNumber ⟨number ++ rest, place⟩ = .ok ⟨rest, place'⟩ := by
  rcases hNumber with ⟨integer, fraction, exponent, hInteger, hFraction, hExponent, rfl⟩
  have hEnds := endsDigits_fraction_append hFraction hExponent hRest
  simp only [List.append_assoc]
  rcases hInteger with rfl | ⟨hDigits, hHead⟩
  · rcases skipAfterInteger_append hFraction hExponent hRest (place.after 0x30) with
      ⟨place', hSkip⟩
    refine ⟨place', ?_⟩
    have hZero : digit? 0x30 = some 0 := rfl
    rw [← hSkip]
    unfold skipNumber
    simp only [List.cons_append, List.nil_append, hZero, Cursor.skip]
    cases hMore : fraction ++ (exponent ++ rest) with
    | nil => rfl
    | cons b more =>
        have hStop : digit? b = none := by
          rw [hMore] at hEnds
          exact hEnds
        simp [hStop]
  · rcases skipDigits_append hDigits.2 hEnds place with ⟨middle, hSkip⟩
    rcases skipAfterInteger_append hFraction hExponent hRest middle with ⟨place', hAfter⟩
    refine ⟨place', ?_⟩
    rcases hDigits.exists_cons with ⟨b, more, rfl, hDigit, _⟩
    rcases Option.isSome_iff_exists.mp hDigit with ⟨d, hValue⟩
    have hNonzero : d ≠ 0 := by
      rintro rfl
      rw [digit?_eq_zero_iff.mp hValue] at hHead
      exact hHead rfl
    unfold skipNumber
    rw [List.cons_append] at hSkip ⊢
    simp only [hValue]
    rw [hSkip]
    exact hAfter

/-!
# Strings
-/

theorem skipEscape_short {letter : UInt8} (h : (shortEscape? letter).isSome) (rest : Bytes)
    (place : Place) : skipEscape ⟨letter :: rest, place⟩ = .ok ⟨rest, place.after letter⟩ := by
  unfold skipEscape
  simp only [Cursor.skip, h, if_true]

theorem skipEscape_hex {a b c d : UInt8} (ha : (hexValue? a).isSome) (hb : (hexValue? b).isSome)
    (hc : (hexValue? c).isSome) (hd : (hexValue? d).isSome) (rest : Bytes) (place : Place) :
    ∃ place', skipEscape ⟨0x75 :: a :: b :: c :: d :: rest, place⟩ = .ok ⟨rest, place'⟩ := by
  rcases Option.isSome_iff_exists.mp ha with ⟨_, ha⟩
  rcases Option.isSome_iff_exists.mp hb with ⟨_, hb⟩
  rcases Option.isSome_iff_exists.mp hc with ⟨_, hc⟩
  rcases Option.isSome_iff_exists.mp hd with ⟨_, hd⟩
  have hShort : shortEscape? 0x75 = none := rfl
  refine ⟨placeAfter (place.after 0x75) [a, b, c, d], ?_⟩
  unfold skipEscape readHex
  simp only [Cursor.skip, hShort, ha, hb, hc, hd]
  rfl

theorem skipStringBytes_of_skipEscape {rest : Bytes} {place : Place} {c : Cursor}
    (h : skipEscape ⟨rest, place.after 0x5C⟩ = .ok c) (fuel : Nat) :
    skipStringBytes (fuel + 1) ⟨0x5C :: rest, place⟩ = skipStringBytes fuel c := by
  rw [skipStringBytes]
  simp only [Cursor.skip, h]
  rfl

theorem skipStringBytes_append {body : Bytes} (h : IsStringBody body) {fuel : Nat}
    (hFuel : body.length < fuel) (rest : Bytes) (place : Place) :
    ∃ place', skipStringBytes fuel ⟨body ++ 0x22 :: rest, place⟩ = .ok ⟨rest, place'⟩ := by
  induction h generalizing fuel place with
  | nil =>
      obtain ⟨fuel, rfl⟩ := Nat.exists_eq_add_of_lt hFuel
      exact ⟨place.after 0x22, rfl⟩
  | @plain b body hByte _ ih =>
      obtain ⟨fuel, rfl⟩ := Nat.exists_eq_add_one_of_ne_zero (Nat.ne_zero_of_lt hFuel)
      obtain ⟨hQuote, hBackslash, hControl⟩ := hByte
      rcases ih (Nat.lt_of_succ_lt_succ hFuel) (place.after b) with ⟨place', hSkip⟩
      refine ⟨place', ?_⟩
      rw [List.cons_append, skipStringBytes]
      simp only [hQuote, hBackslash, hControl, if_false]
      exact hSkip
  | @short letter body hLetter _ ih =>
      obtain ⟨fuel, rfl⟩ := Nat.exists_eq_add_one_of_ne_zero (Nat.ne_zero_of_lt hFuel)
      simp only [List.length_cons] at hFuel
      rcases ih (show body.length < fuel by omega) ((place.after 0x5C).after letter) with
        ⟨place', hSkip⟩
      refine ⟨place', ?_⟩
      rw [← hSkip]
      exact skipStringBytes_of_skipEscape (skipEscape_short hLetter _ _) fuel
  | @hex a b c d body ha hb hc hd _ ih =>
      obtain ⟨fuel, rfl⟩ := Nat.exists_eq_add_one_of_ne_zero (Nat.ne_zero_of_lt hFuel)
      simp only [List.length_cons] at hFuel
      rcases skipEscape_hex ha hb hc hd (body ++ 0x22 :: rest) (place.after 0x5C) with
        ⟨middle, hEscape⟩
      rcases ih (show body.length < fuel by omega) middle with ⟨place', hSkip⟩
      refine ⟨place', ?_⟩
      rw [← hSkip]
      exact skipStringBytes_of_skipEscape hEscape fuel

theorem skipString_append {body : Bytes} (h : IsStringBody body) (rest : Bytes) (place : Place) :
    ∃ place', skipString ⟨body ++ 0x22 :: rest, place⟩ = .ok ⟨rest, place'⟩ := by
  apply skipStringBytes_append h
  rw [List.length_append]
  omega

/-!
# Brackets

Closing brackets and beginning the next value are limited apart, and either limit is above the
number of bytes that are left.
-/

def Bracket.closing : Bracket → UInt8
  | .list => 0x5D
  | .object => 0x7D

/-- What is done inside of the open brackets, behind a value or behind a bracket. -/
def resume (closeFuel fuel : Nat) (afterValue : Bool) : List Bracket → Cursor →
    Except Fault Cursor
  | [], c => .ok c
  | bracket :: outer, c => do
      let (opened, c) ← closeBrackets closeFuel afterValue bracket outer c
      match opened with
      | none => return c
      | some (bracket, outer) =>
          let c ← skipName bracket c
          skipValues fuel (bracket :: outer) c

/-- From the one place the work goes on to the other, behind a value and with fuel enough. -/
def GoesOn (work : Except Fault Cursor) (brackets : List Bracket) (rest : Bytes) : Prop :=
  ∃ closeFuel fuel place, rest.length < closeFuel ∧ rest.length < fuel ∧
    work = resume closeFuel fuel true brackets ⟨rest, place⟩

/-- The value is passed over, whatever is open around it. -/
def Passes (bytes : Bytes) : Prop :=
  ∀ fuel brackets before rest place, IsBlank before → EndsValue rest →
    (before ++ (bytes ++ rest)).length < fuel →
    GoesOn (skipValues fuel brackets ⟨before ++ (bytes ++ rest), place⟩) brackets rest

/-- The item is passed over inside of the bracket. In an object it has a name. -/
def PassesIn (bracket : Bracket) (bytes : Bytes) : Prop :=
  ∀ fuel outer before rest place, IsBlank before → EndsValue rest →
    (before ++ (bytes ++ rest)).length < fuel →
    GoesOn (do
      let c ← skipName bracket ⟨before ++ (bytes ++ rest), place⟩
      skipValues fuel (bracket :: outer) c) (bracket :: outer) rest

theorem Passes.passesIn_list {bytes : Bytes} (h : Passes bytes) : PassesIn .list bytes :=
  fun fuel outer before rest place => h fuel (.list :: outer) before rest place

section Brackets

variable {closeFuel fuel : Nat} {afterValue : Bool} {bracket : Bracket} {outer : List Bracket}

theorem closing_not_blank (bracket : Bracket) :
    Cursor.isBlankByte bracket.closing = false := by
  cases bracket with
  | list => rfl
  | object => rfl

theorem closeBrackets_closing {blanks : Bytes} (hBlanks : IsBlank blanks) (rest : Bytes)
    (place : Place) :
    ∃ place', closeBrackets (closeFuel + 1) afterValue bracket outer
        ⟨blanks ++ bracket.closing :: rest, place⟩ =
      match outer with
      | [] => .ok (none, ⟨rest, place'⟩)
      | bracket' :: outer' => closeBrackets closeFuel true bracket' outer' ⟨rest, place'⟩ := by
  rcases skipBlank_before hBlanks (closing_not_blank bracket) rest place with ⟨middle, hSkip⟩
  have hComma : ¬(afterValue = true ∧ bracket.closing = 0x2C) := by
    intro h
    cases bracket with
    | list => exact absurd h.2 (by decide)
    | object => exact absurd h.2 (by decide)
  refine ⟨middle.after bracket.closing, ?_⟩
  rw [closeBrackets.eq_def]
  simp only [hSkip]
  rw [if_neg hComma, if_pos (by cases bracket <;> rfl)]
  cases outer with
  | nil => rfl
  | cons bracket' outer' => rfl

theorem goesOn_closing {blanks : Bytes} (hBlanks : IsBlank blanks) {rest : Bytes}
    (hClose : (blanks ++ bracket.closing :: rest).length < closeFuel)
    (hFuel : (blanks ++ bracket.closing :: rest).length < fuel) (place : Place) :
    GoesOn (resume closeFuel fuel afterValue (bracket :: outer)
      ⟨blanks ++ bracket.closing :: rest, place⟩) outer rest := by
  simp only [List.length_append, List.length_cons] at hClose hFuel
  obtain ⟨closeFuel, rfl⟩ := Nat.exists_eq_add_one_of_ne_zero (Nat.ne_zero_of_lt hClose)
  rcases closeBrackets_closing hBlanks rest place with ⟨place', hBrackets⟩
  refine ⟨closeFuel, fuel, place', by omega, by omega, ?_⟩
  rw [resume, hBrackets]
  cases outer with
  | nil => rfl
  | cons bracket' outer' => rfl

theorem closeBrackets_comma (closeFuel : Nat) (bracket : Bracket) (outer : List Bracket)
    {before : Bytes} (hBefore : IsBlank before) (rest : Bytes)
    (place : Place) :
    ∃ place', closeBrackets (closeFuel + 1) true bracket outer ⟨before ++ 0x2C :: rest, place⟩ =
      .ok (some (bracket, outer), ⟨rest, place'⟩) := by
  rcases skipBlank_before hBefore (by decide : Cursor.isBlankByte 0x2C = false) rest place with
    ⟨middle, hSkip⟩
  refine ⟨middle.after 0x2C, ?_⟩
  rw [closeBrackets.eq_def]
  simp only [hSkip]
  rfl

theorem closeBrackets_first (closeFuel : Nat) (outer : List Bracket) {before : Bytes}
    (hBefore : IsBlank before) {b : UInt8}
    (hBlank : Cursor.isBlankByte b = false) (hClosing : b ≠ bracket.closing) (rest : Bytes)
    (place : Place) :
    ∃ place', closeBrackets (closeFuel + 1) false bracket outer ⟨before ++ b :: rest, place⟩ =
      .ok (some (bracket, outer), ⟨b :: rest, place'⟩) := by
  rcases skipBlank_before hBefore hBlank rest place with ⟨place', hSkip⟩
  refine ⟨place', ?_⟩
  rw [closeBrackets.eq_def]
  simp only [hSkip]
  cases bracket with
  | list =>
      have hNot : b ≠ 0x5D := hClosing
      simp [hNot]
  | object =>
      have hNot : b ≠ 0x7D := hClosing
      simp [hNot]

/-- Behind a comma, or at the first item, an item is reached with nothing but blanks before it. -/
theorem closeBrackets_item (closeFuel : Nat) (outer : List Bracket) (isFirst : Bool)
    {before between : Bytes} (hBefore : IsBlank before)
    (hBetween : IsBlank between) {b : UInt8} (hBlank : Cursor.isBlankByte b = false)
    (hClosing : b ≠ bracket.closing) (rest : Bytes) (place : Place) :
    ∃ blanks place', IsBlank blanks ∧
      (blanks ++ b :: rest).length ≤
        (before ++ (separator isFirst ++ (between ++ b :: rest))).length ∧
      closeBrackets (closeFuel + 1) (!isFirst) bracket outer
        ⟨before ++ (separator isFirst ++ (between ++ b :: rest)), place⟩ =
          .ok (some (bracket, outer), ⟨blanks ++ b :: rest, place'⟩) := by
  cases isFirst with
  | true =>
      rcases closeBrackets_first closeFuel outer
        (hBefore.append hBetween) hBlank hClosing rest place with ⟨place', hClosed⟩
      refine ⟨[], place', isBlank_nil, ?_, ?_⟩
      · simp only [List.length_append, List.nil_append]
        omega
      · rw [List.append_assoc] at hClosed
        exact hClosed
  | false =>
      rcases closeBrackets_comma closeFuel bracket outer
        hBefore (between ++ b :: rest) place with ⟨place', hClosed⟩
      refine ⟨between, place', hBetween, ?_, hClosed⟩
      simp only [List.length_append]
      omega

def BeginsIn (bracket : Bracket) (bytes : Bytes) : Prop :=
  ∃ b rest, bytes = b :: rest ∧ Cursor.isBlankByte b = false ∧ b ≠ bracket.closing

/-- Items with what stands between them are passed over up to the bracket that ends them. -/
theorem goesOn_items {α : Type} {IsItem : α → Bytes → Prop} {items : List α} {isFirst : Bool}
    {inside : Bytes} (hItems : ∀ item ∈ items, ∀ bytes, IsItem item bytes →
      BeginsIn bracket bytes ∧ PassesIn bracket bytes)
    (h : Separated IsItem isFirst items inside) {rest : Bytes}
    (hClose : (inside ++ bracket.closing :: rest).length < closeFuel)
    (hFuel : (inside ++ bracket.closing :: rest).length < fuel) (place : Place) :
    GoesOn (resume closeFuel fuel (!isFirst) (bracket :: outer)
      ⟨inside ++ bracket.closing :: rest, place⟩) outer rest := by
  induction h generalizing closeFuel fuel place with
  | nil hBlanks => exact goesOn_closing hBlanks hClose hFuel place
  | @cons isFirst item items before between bytes inside hBefore hBetween hItem hRest ih =>
      rcases hItems item (List.mem_cons_self ..) bytes hItem with
        ⟨⟨b, more, rfl, hBlank, hClosing⟩, hPasses⟩
      have hEnds := hRest.endsValue (show endsValueByte bracket.closing = true by
        cases bracket with
        | list => rfl
        | object => rfl) rest
      have hInput : before ++ (separator isFirst ++ (between ++ (b :: more ++ inside))) ++
          bracket.closing :: rest = before ++ (separator isFirst ++ (between ++
            b :: (more ++ (inside ++ bracket.closing :: rest)))) := by
        simp only [List.append_assoc, List.cons_append]
      rw [hInput] at hClose hFuel ⊢
      obtain ⟨closeFuel, rfl⟩ := Nat.exists_eq_add_one_of_ne_zero (Nat.ne_zero_of_lt hClose)
      rcases closeBrackets_item closeFuel outer isFirst hBefore hBetween hBlank
        hClosing (more ++ (inside ++ bracket.closing :: rest)) place with
        ⟨blanks, middle, hBlanks, hLength, hClosed⟩
      rcases hPasses fuel outer blanks (inside ++ bracket.closing :: rest) middle hBlanks hEnds
        (Nat.lt_of_le_of_lt hLength hFuel) with
        ⟨closeFuel', fuel', place', hClose', hFuel', hWork⟩
      have hResume : resume (closeFuel + 1) fuel (!isFirst) (bracket :: outer)
          ⟨before ++ (separator isFirst ++ (between ++
            b :: (more ++ (inside ++ bracket.closing :: rest)))), place⟩ =
          resume closeFuel' fuel' true (bracket :: outer)
            ⟨inside ++ bracket.closing :: rest, place'⟩ := by
        rw [resume, hClosed]
        exact hWork
      rw [hResume]
      exact ih (fun other hMem => hItems other (List.mem_cons_of_mem item hMem)) hClose' hFuel'
        place'

end Brackets

/-!
# Values
-/

theorem skipValues_eq (fuel : Nat) (brackets : List Bracket) (c : Cursor) :
    skipValues (fuel + 1) brackets c =
      match c.skipBlank.rest with
      | [] => c.skipBlank.failAhead .eofInValue
      | b :: _ =>
          if b = 0x6E then
            Cursor.word [0x75, 0x6C, 0x6C] c.skipBlank.skip >>= resume fuel fuel true brackets
          else if b = 0x74 then
            Cursor.word [0x72, 0x75, 0x65] c.skipBlank.skip >>= resume fuel fuel true brackets
          else if b = 0x66 then
            Cursor.word [0x61, 0x6C, 0x73, 0x65] c.skipBlank.skip >>=
              resume fuel fuel true brackets
          else if b = 0x2D then
            skipNumber c.skipBlank.skip >>= resume fuel fuel true brackets
          else if (digit? b).isSome then
            skipNumber c.skipBlank >>= resume fuel fuel true brackets
          else if b = 0x22 then
            skipString c.skipBlank.skip >>= resume fuel fuel true brackets
          else if b = 0x5B then resume fuel fuel false (.list :: brackets) c.skipBlank.skip
          else if b = 0x7B then resume fuel fuel false (.object :: brackets) c.skipBlank.skip
          else c.skipBlank.failAhead .expectedValue := by
  cases brackets with
  | nil => rfl
  | cons bracket outer => rfl

/-- A value is passed over if its first byte leads to what passes over the rest of it. -/
theorem passes_of_step {b : UInt8} {more : Bytes} (hBlank : Cursor.isBlankByte b = false)
    (hStep : ∀ rest, EndsValue rest → ∀ place, ∃ place', ∀ fuel brackets c,
      c.skipBlank = ⟨b :: (more ++ rest), place⟩ →
        skipValues (fuel + 1) brackets c = resume fuel fuel true brackets ⟨rest, place'⟩) :
    Passes (b :: more) := by
  intro fuel brackets before rest place hBefore hEnds hFuel
  simp only [List.length_append, List.length_cons] at hFuel
  obtain ⟨fuel, rfl⟩ := Nat.exists_eq_add_one_of_ne_zero (Nat.ne_zero_of_lt hFuel)
  rcases skipBlank_before hBefore hBlank (more ++ rest) place with ⟨middle, hSkip⟩
  rcases hStep rest hEnds middle with ⟨place', hSkipped⟩
  exact ⟨fuel, fuel, place', by omega, by omega, hSkipped fuel brackets _ hSkip⟩

theorem passes_of_items {α : Type} {IsItem : α → Bytes → Prop} {items : List α} {inside : Bytes}
    (bracket : Bracket) {opening : UInt8} (hBlank : Cursor.isBlankByte opening = false)
    (hOpen : ∀ fuel brackets c rest place, c.skipBlank = ⟨opening :: rest, place⟩ →
      skipValues (fuel + 1) brackets c =
        resume fuel fuel false (bracket :: brackets) ⟨rest, place.after opening⟩)
    (hItems : ∀ item ∈ items, ∀ bytes, IsItem item bytes →
      BeginsIn bracket bytes ∧ PassesIn bracket bytes)
    (hInside : Separated IsItem true items inside) :
    Passes (opening :: (inside ++ [bracket.closing])) := by
  intro fuel brackets before rest place hBefore hEnds hFuel
  have hInput : opening :: (inside ++ [bracket.closing]) ++ rest =
      opening :: (inside ++ bracket.closing :: rest) := by
    simp only [List.append_assoc, List.cons_append, List.nil_append]
  rw [hInput] at hFuel ⊢
  obtain ⟨fuel, rfl⟩ := Nat.exists_eq_add_one_of_ne_zero (Nat.ne_zero_of_lt hFuel)
  have hEnough : (inside ++ bracket.closing :: rest).length < fuel := by
    simp only [List.length_append, List.length_cons] at hFuel ⊢
    omega
  rcases skipBlank_before hBefore hBlank (inside ++ bracket.closing :: rest) place with
    ⟨middle, hSkip⟩
  rw [hOpen fuel brackets _ _ _ hSkip]
  exact goesOn_items hItems hInside hEnough hEnough _

theorem isBlankByte_of_digit {b : UInt8} (h : (digit? b).isSome) :
    Cursor.isBlankByte b = false := by
  cases hBlank : Cursor.isBlankByte b with
  | false => rfl
  | true =>
      have hEnds : endsValueByte b = true := by simp [endsValueByte, hBlank]
      rw [(not_number_of_endsValueByte b hEnds).1] at h
      cases h

theorem IsNumber.exists_cons {bytes : Bytes} (h : IsNumber bytes) :
    ∃ b rest, bytes = b :: rest ∧ (digit? b).isSome := by
  rcases h with ⟨integer, fraction, exponent, rfl | ⟨hDigits, _⟩, _, _, rfl⟩
  · exact ⟨0x30, fraction ++ exponent, rfl, rfl⟩
  · rcases hDigits.exists_cons with ⟨b, more, rfl, hDigit, _⟩
    exact ⟨b, _, rfl, hDigit⟩

theorem IsNumber.passes {bytes : Bytes} (h : IsNumber bytes) : Passes bytes := by
  rcases h.exists_cons with ⟨b, more, rfl, hDigit⟩
  have hOther : ∀ letter : UInt8, digit? letter = none → b ≠ letter :=
    fun _ => ne_of_digit hDigit
  apply passes_of_step (isBlankByte_of_digit hDigit)
  intro rest hEnds place
  rcases skipNumber_append h hEnds place with ⟨place', hNumber⟩
  refine ⟨place', ?_⟩
  intro fuel brackets c hSkip
  rw [skipValues_eq, hSkip]
  simp only [hOther 0x6E rfl, hOther 0x74 rfl, hOther 0x66 rfl, hOther 0x2D rfl, hDigit, if_false,
    if_true]
  rw [List.cons_append] at hNumber
  rw [hNumber]
  rfl

theorem IsNumber.passes_negative {bytes : Bytes} (h : IsNumber bytes) :
    Passes (0x2D :: bytes) := by
  apply passes_of_step rfl
  intro rest hEnds place
  rcases skipNumber_append h hEnds (place.after 0x2D) with ⟨place', hNumber⟩
  refine ⟨place', ?_⟩
  intro fuel brackets c hSkip
  rw [skipValues_eq, hSkip]
  show skipNumber ⟨bytes ++ rest, place.after 0x2D⟩ >>= resume fuel fuel true brackets = _
  rw [hNumber]
  rfl

theorem IsString.passes {bytes : Bytes} (h : IsString bytes) : Passes bytes := by
  rcases h with ⟨body, hBody, rfl⟩
  apply passes_of_step rfl
  intro rest _ place
  rcases skipString_append hBody rest (place.after 0x22) with ⟨place', hString⟩
  refine ⟨place', ?_⟩
  intro fuel brackets c hSkip
  rw [skipValues_eq, hSkip, List.append_assoc]
  show skipString ⟨body ++ 0x22 :: rest, place.after 0x22⟩ >>= resume fuel fuel true brackets = _
  rw [hString]
  rfl

theorem passes_word {b : UInt8} {letters : Bytes} (hBlank : Cursor.isBlankByte b = false)
    (hWord : ∀ fuel brackets c rest place, c.skipBlank = ⟨b :: rest, place⟩ →
      skipValues (fuel + 1) brackets c =
        Cursor.word letters ⟨rest, place.after b⟩ >>= resume fuel fuel true brackets) :
    Passes (b :: letters) := by
  have hLetters : ∀ (letters rest : Bytes) (place : Place), ∃ place',
      Cursor.word letters ⟨letters ++ rest, place⟩ = .ok ⟨rest, place'⟩ := by
    intro letters
    induction letters with
    | nil => exact fun rest place => ⟨place, rfl⟩
    | cons letter letters ih =>
        intro rest place
        rcases ih rest (place.after letter) with ⟨place', hRest⟩
        refine ⟨place', ?_⟩
        rw [List.cons_append, Cursor.word.eq_def]
        simp only [if_true]
        exact hRest
  apply passes_of_step hBlank
  intro rest _ place
  rcases hLetters letters rest (place.after b) with ⟨place', hRest⟩
  refine ⟨place', ?_⟩
  intro fuel brackets c hSkip
  rw [hWord fuel brackets c _ _ hSkip, hRest]
  rfl

theorem IsMember.passesIn_object {name value bytes : Bytes} (h : IsMember name value bytes)
    (hName : IsString name) (hValue : Passes value) : PassesIn .object bytes := by
  rcases h with ⟨beforeColon, afterColon, hBeforeColon, hAfterColon, rfl⟩
  rcases hName with ⟨body, hBody, rfl⟩
  intro fuel outer before rest place hBefore hEnds hFuel
  have hInput : 0x22 :: (body ++ [0x22]) ++ (beforeColon ++ 0x3A :: (afterColon ++ value)) ++ rest =
      0x22 :: (body ++ 0x22 :: (beforeColon ++ 0x3A :: (afterColon ++ (value ++ rest)))) := by
    simp only [List.append_assoc, List.cons_append, List.nil_append]
  rw [hInput] at hFuel ⊢
  rcases skipBlank_before hBefore (by decide : Cursor.isBlankByte 0x22 = false)
    (body ++ 0x22 :: (beforeColon ++ 0x3A :: (afterColon ++ (value ++ rest)))) place with
    ⟨first, hSkip⟩
  rcases skipString_append hBody (beforeColon ++ 0x3A :: (afterColon ++ (value ++ rest)))
    (first.after 0x22) with ⟨second, hString⟩
  rcases readColon_before hBeforeColon (afterColon ++ (value ++ rest)) second with
    ⟨third, hColon⟩
  have hSkipped : skipName .object
      ⟨before ++ 0x22 :: (body ++ 0x22 :: (beforeColon ++ 0x3A ::
        (afterColon ++ (value ++ rest)))), place⟩ = .ok ⟨afterColon ++ (value ++ rest), third⟩ := by
    unfold skipName
    simp only [hSkip, Cursor.skip, if_true]
    rw [hString]
    exact hColon
  rw [hSkipped]
  apply hValue fuel (.object :: outer) afterColon rest third hAfterColon hEnds
  simp only [List.length_append, List.length_cons] at hFuel ⊢
  omega

theorem IsMember.beginsIn_object {name value bytes : Bytes} (h : IsMember name value bytes)
    (hName : IsString name) : BeginsIn .object bytes := by
  rcases h with ⟨_, _, _, _, rfl⟩
  rcases hName with ⟨_, _, rfl⟩
  exact ⟨0x22, _, rfl, rfl, by decide⟩

theorem IsValue.beginsIn_list {bytes : Bytes} (h : IsValue bytes) : BeginsIn .list bytes := by
  cases h with
  | null => exact ⟨0x6E, _, rfl, rfl, by decide⟩
  | true => exact ⟨0x74, _, rfl, rfl, by decide⟩
  | false => exact ⟨0x66, _, rfl, rfl, by decide⟩
  | positive hNumber =>
      rcases hNumber.exists_cons with ⟨b, rest, rfl, hDigit⟩
      exact ⟨b, rest, rfl, isBlankByte_of_digit hDigit, ne_of_digit hDigit rfl⟩
  | negative _ => exact ⟨0x2D, _, rfl, rfl, by decide⟩
  | string hString =>
      rcases hString with ⟨_, _, rfl⟩
      exact ⟨0x22, _, rfl, rfl, by decide⟩
  | list _ _ => exact ⟨0x5B, _, rfl, rfl, by decide⟩
  | object _ _ _ => exact ⟨0x7B, _, rfl, rfl, by decide⟩

theorem IsValue.passes {bytes : Bytes} (h : IsValue bytes) : Passes bytes := by
  induction h with
  | null =>
      apply passes_word rfl
      intro fuel brackets c rest place hSkip
      rw [skipValues_eq, hSkip]
      rfl
  | true =>
      apply passes_word rfl
      intro fuel brackets c rest place hSkip
      rw [skipValues_eq, hSkip]
      rfl
  | false =>
      apply passes_word rfl
      intro fuel brackets c rest place hSkip
      rw [skipValues_eq, hSkip]
      rfl
  | positive hNumber => exact hNumber.passes
  | negative hNumber => exact hNumber.passes_negative
  | string hString => exact hString.passes
  | list hItems hInside ih =>
      refine passes_of_items .list rfl ?_ ?_ hInside
      · intro fuel brackets c rest place hSkip
        rw [skipValues_eq, hSkip]
        rfl
      · rintro item hMem bytes rfl
        exact ⟨(hItems _ hMem).beginsIn_list, (ih _ hMem).passesIn_list⟩
  | object hNames hValues hInside ih =>
      refine passes_of_items .object rfl ?_ ?_ hInside
      · intro fuel brackets c rest place hSkip
        rw [skipValues_eq, hSkip]
        rfl
      · intro member hMem bytes hMember
        have hRaw : IsMember member.1 member.2 bytes := hMember
        exact ⟨hRaw.beginsIn_object (hNames member hMem),
          hRaw.passesIn_object (hNames member hMem) (ih member hMem)⟩

/-- Whatever value it is, it is passed over from the blanks before it to what follows it. -/
theorem skipValue_append {before value rest : Bytes} (hBefore : IsBlank before)
    (hValue : IsValue value) (hRest : EndsValue rest) (place : Place) :
    ∃ place', skipValue ⟨before ++ (value ++ rest), place⟩ = .ok ⟨rest, place'⟩ := by
  have hFuel : (before ++ (value ++ rest)).length < fuelFor (before ++ (value ++ rest)) := by
    unfold fuelFor
    omega
  rcases hValue.passes (fuelFor (before ++ (value ++ rest))) [] before rest place hBefore hRest
    hFuel with ⟨_, _, place', _, _, hWork⟩
  exact ⟨place', hWork⟩

end Json
end CatalogAudit
