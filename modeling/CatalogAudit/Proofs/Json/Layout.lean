import CatalogAudit.Proofs.Json.Readers

/-!
# Texts of values

What a text of a value may look like, with blanks wherever they are allowed. The grammar says
nothing about what a value means: a number may be out of range, a string need not spell characters,
and values are nested as deeply as one likes.
-/

namespace CatalogAudit
namespace Json

open Utf8 (Bytes)

/-!
# Blanks
-/

def IsBlank (bytes : Bytes) : Prop :=
  ∀ b ∈ bytes, Cursor.isBlankByte b = true

-- By the bytes that there are: as a statement about every byte it would be far slower to decide.
instance : DecidablePred IsBlank :=
  fun bytes => decidable_of_iff (bytes.all Cursor.isBlankByte = true) List.all_eq_true

theorem isBlank_nil : IsBlank [] :=
  fun _ h => absurd h List.not_mem_nil

theorem IsBlank.append {before after : Bytes} (hBefore : IsBlank before) (hAfter : IsBlank after) :
    IsBlank (before ++ after) := by
  intro b hMem
  rcases List.mem_append.mp hMem with h | h
  · exact hBefore b h
  · exact hAfter b h

theorem skipBlank_append {blanks : Bytes} (h : IsBlank blanks) (rest : Bytes) (place : Place) :
    ∃ place', Cursor.skipBlank ⟨blanks ++ rest, place⟩ = Cursor.skipBlank ⟨rest, place'⟩ := by
  induction blanks generalizing place with
  | nil => exact ⟨place, rfl⟩
  | cons b blanks ih =>
      rcases ih (fun b' hMem => h b' (List.mem_cons_of_mem b hMem)) (place.after b) with
        ⟨place', hSkip⟩
      refine ⟨place', ?_⟩
      rw [← hSkip]
      show Cursor.skipBlankFrom (b :: (blanks ++ rest)) place = _
      rw [Cursor.skipBlankFrom, if_pos (h b (List.mem_cons_self ..))]
      rfl

theorem skipBlank_before {blanks : Bytes} (h : IsBlank blanks) {b : UInt8}
    (hByte : Cursor.isBlankByte b = false) (rest : Bytes) (place : Place) :
    ∃ place', Cursor.skipBlank ⟨blanks ++ b :: rest, place⟩ = ⟨b :: rest, place'⟩ := by
  rcases skipBlank_append h (b :: rest) place with ⟨place', hSkip⟩
  exact ⟨place', hSkip.trans (skipBlank_of_not_blank hByte rest place')⟩

theorem readColon_before {blanks : Bytes} (h : IsBlank blanks) (rest : Bytes) (place : Place) :
    ∃ place', readColon ⟨blanks ++ 0x3A :: rest, place⟩ = .ok ⟨rest, place'⟩ := by
  rcases skipBlank_before h (by decide : Cursor.isBlankByte 0x3A = false) rest place with
    ⟨middle, hSkip⟩
  refine ⟨middle.after 0x3A, ?_⟩
  unfold readColon
  rw [hSkip]
  rfl

/-!
# Items between separators

An item's text is told by a relation, so that the same rules serve for lists and for objects.
-/

inductive Separated (IsItem : α → Bytes → Prop) : Bool → List α → Bytes → Prop
  | nil {isFirst : Bool} {blanks : Bytes} (h : IsBlank blanks) : Separated IsItem isFirst [] blanks
  | cons {isFirst : Bool} {item : α} {items : List α} {before between bytes rest : Bytes}
      (hBefore : IsBlank before) (hBetween : IsBlank between) (hItem : IsItem item bytes)
      (hRest : Separated IsItem false items rest) :
      Separated IsItem isFirst (item :: items)
        (before ++ (separator isFirst ++ (between ++ (bytes ++ rest))))

/-- The text of a member, whose name is given as it is written. -/
def IsMember (name value bytes : Bytes) : Prop :=
  ∃ before after, IsBlank before ∧ IsBlank after ∧
    bytes = name ++ (before ++ 0x3A :: (after ++ value))

/-!
# Numbers and strings
-/

def IsDigits (bytes : Bytes) : Prop :=
  bytes ≠ [] ∧ ∀ b ∈ bytes, (digit? b).isSome

instance : DecidablePred IsDigits :=
  fun bytes => decidable_of_iff (bytes ≠ [] ∧ (bytes.all fun b => (digit? b).isSome) = true)
    (and_congr_right fun _ => List.all_eq_true)

def IsInteger (bytes : Bytes) : Prop :=
  bytes = [0x30] ∨ IsDigits bytes ∧ bytes.head? ≠ some 0x30

def IsFraction (bytes : Bytes) : Prop :=
  bytes = [] ∨ ∃ digits, IsDigits digits ∧ bytes = 0x2E :: digits

def IsExponent (bytes : Bytes) : Prop :=
  bytes = [] ∨ ∃ letter sign digits, (letter = 0x65 ∨ letter = 0x45) ∧
    (sign = [] ∨ sign = [0x2B] ∨ sign = [0x2D]) ∧ IsDigits digits ∧
    bytes = letter :: (sign ++ digits)

def IsNumber (bytes : Bytes) : Prop :=
  ∃ integer fraction exponent, IsInteger integer ∧ IsFraction fraction ∧ IsExponent exponent ∧
    bytes = integer ++ (fraction ++ exponent)

inductive IsStringBody : Bytes → Prop
  | nil : IsStringBody []
  | plain {b : UInt8} {rest : Bytes} (h : IsPlainByte b) (hRest : IsStringBody rest) :
      IsStringBody (b :: rest)
  | short {letter : UInt8} {rest : Bytes} (h : (shortEscape? letter).isSome)
      (hRest : IsStringBody rest) : IsStringBody (0x5C :: letter :: rest)
  | hex {a b c d : UInt8} {rest : Bytes} (ha : (hexValue? a).isSome) (hb : (hexValue? b).isSome)
      (hc : (hexValue? c).isSome) (hd : (hexValue? d).isSome) (hRest : IsStringBody rest) :
      IsStringBody (0x5C :: 0x75 :: a :: b :: c :: d :: rest)

def IsString (bytes : Bytes) : Prop :=
  ∃ body, IsStringBody body ∧ bytes = 0x22 :: (body ++ [0x22])

/-!
# Values
-/

/-- A member as it stands in an object that is only passed over. -/
def IsRawMember (member : Bytes × Bytes) (bytes : Bytes) : Prop :=
  IsMember member.1 member.2 bytes

/-- The text of some value, without blanks around it. -/
inductive IsValue : Bytes → Prop
  | null : IsValue [0x6E, 0x75, 0x6C, 0x6C]
  | true : IsValue [0x74, 0x72, 0x75, 0x65]
  | false : IsValue [0x66, 0x61, 0x6C, 0x73, 0x65]
  | positive {bytes : Bytes} (h : IsNumber bytes) : IsValue bytes
  | negative {bytes : Bytes} (h : IsNumber bytes) : IsValue (0x2D :: bytes)
  | string {bytes : Bytes} (h : IsString bytes) : IsValue bytes
  | list {items : List Bytes} {inside : Bytes} (hItems : ∀ item ∈ items, IsValue item)
      (hInside : Separated Eq true items inside) : IsValue (0x5B :: (inside ++ [0x5D]))
  | object {members : List (Bytes × Bytes)} {inside : Bytes}
      (hNames : ∀ member ∈ members, IsString member.1)
      (hValues : ∀ member ∈ members, IsValue member.2)
      (hInside : Separated IsRawMember true members inside) : IsValue (0x7B :: (inside ++ [0x7D]))

/-!
# What may follow a value
-/

def endsValueByte (b : UInt8) : Bool :=
  Cursor.isBlankByte b || b = 0x2C || b = 0x5D || b = 0x7D

def EndsValue : Bytes → Prop
  | [] => True
  | b :: _ => endsValueByte b = true

theorem Separated.endsValue {IsItem : α → Bytes → Prop} {items : List α} {inside : Bytes}
    (h : Separated IsItem false items inside) {closing : UInt8}
    (hClosing : endsValueByte closing = true) (rest : Bytes) :
    EndsValue (inside ++ closing :: rest) := by
  have hBlank : ∀ {blanks : Bytes}, IsBlank blanks → ∀ {b : UInt8} (more : Bytes),
      endsValueByte b = true → EndsValue (blanks ++ b :: more) := by
    intro blanks hBlanks b more hByte
    cases blanks with
    | nil => exact hByte
    | cons first blanks =>
        have hFirst := hBlanks first (List.mem_cons_self ..)
        show endsValueByte first = true
        simp [endsValueByte, hFirst]
  cases h with
  | nil hBlanks => exact hBlank hBlanks rest hClosing
  | cons hBefore _ _ _ =>
      simp only [separator, Bool.false_eq_true, if_false, List.append_assoc, List.cons_append,
        List.nil_append]
      exact hBlank hBefore _ (by decide)

theorem not_number_of_endsValueByte : ∀ b : UInt8, endsValueByte b = true →
    digit? b = none ∧ b ≠ 0x2E ∧ b ≠ 0x65 ∧ b ≠ 0x45 := by
  intro b h
  simp only [endsValueByte, Cursor.isBlankByte, Bool.or_eq_true, decide_eq_true_eq] at h
  rcases h with (((((rfl | rfl) | rfl) | rfl) | rfl) | rfl) | rfl
  all_goals decide

/-!
# How values begin
-/

theorem IsDigits.exists_cons {bytes : Bytes} (h : IsDigits bytes) :
    ∃ b rest, bytes = b :: rest ∧ (digit? b).isSome ∧ ∀ b' ∈ rest, (digit? b').isSome := by
  cases bytes with
  | nil => exact absurd rfl h.1
  | cons b rest =>
      exact ⟨b, rest, rfl, h.2 b (List.mem_cons_self ..), fun b' hMem =>
        h.2 b' (List.mem_cons_of_mem b hMem)⟩

end Json
end CatalogAudit
