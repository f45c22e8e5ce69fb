import CatalogAudit.Proofs.Json.Records

/-!
# Printed forms as texts

The compact form and the indented form are two of the texts that a value may have. They differ in
nothing but blanks.
-/

namespace CatalogAudit
namespace Json

open Utf8 (Bytes encode)

/-- The text spells the value. In a list there may be blanks around the items. -/
def Spells : Json → Bytes → Prop
  | .array items, text => ∃ inside,
      Separated (fun item bytes => bytes = printed item) true items inside ∧
        text = 0x5B :: (inside ++ [0x5D])
  | value, text => text = printed value

def IsFlat : Json → Prop
  | .array items => ∀ item ∈ items, ∃ s, item = .string s
  | .object _ => False
  | _ => True

/-!
# Items after the same blanks
-/

section Items

variable {α β : Type}

def separatedBytes (between : Bytes) (toBytes : α → Bytes) : Bool → List α → Bytes
  | _, [] => []
  | isFirst, x :: xs =>
      separator isFirst ++ (between ++ (toBytes x ++ separatedBytes between toBytes false xs))

theorem separated_separatedBytes {IsItem : β → Bytes → Prop} (toItem : α → β)
    (toBytes : α → Bytes) {between after : Bytes} (hBetween : IsBlank between)
    (hAfter : IsBlank after) {xs : List α} (h : ∀ x ∈ xs, IsItem (toItem x) (toBytes x))
    (isFirst : Bool) :
    Separated IsItem isFirst (xs.map toItem)
      (separatedBytes between toBytes isFirst xs ++ after) := by
  induction xs generalizing isFirst with
  | nil => exact .nil hAfter
  | cons x xs ih =>
      have hRest := ih (fun y hMem => h y (List.mem_cons_of_mem x hMem)) false
      have hInput : separatedBytes between toBytes isFirst (x :: xs) ++ after =
          [] ++ (separator isFirst ++ (between ++ (toBytes x ++
            (separatedBytes between toBytes false xs ++ after)))) := by
        simp only [separatedBytes, List.nil_append, List.append_assoc]
      rw [hInput]
      exact .cons isBlank_nil hBetween (h x (List.mem_cons_self ..)) hRest

/-- A printer that puts a comma between items and the same characters before each of them. -/
theorem encode_eq_separatedBytes (print : List α → List Char) (before : List Char)
    (printOne : α → List Char) (hNil : print [] = [])
    (hOne : ∀ x, print [x] = before ++ printOne x)
    (hMore : ∀ x y ys, print (x :: y :: ys) = before ++ printOne x ++ ',' :: print (y :: ys))
    (xs : List α) :
    encode (print xs) = separatedBytes (encode before) (fun x => encode (printOne x)) true xs := by
  induction xs with
  | nil =>
      rw [hNil]
      rfl
  | cons x xs ih =>
      cases xs with
      | nil =>
          rw [hOne, Utf8.encode_append]
          simp only [separatedBytes, separator, if_true, List.nil_append, List.append_nil]
      | cons y ys =>
          have hComma : separatedBytes (encode before) (fun x => encode (printOne x)) false
              (y :: ys) = 0x2C :: encode (print (y :: ys)) := by
            rw [ih]
            rfl
          rw [hMore, Utf8.encode_append, Utf8.encode_append, Utf8.encode_cons, separatedBytes,
            hComma]
          simp only [separator, if_true, List.nil_append, List.append_assoc]
          rfl

end Items

theorem isBlank_lineBreak (level : Nat) : IsBlank (encode (lineBreak level)) := by
  intro b hMem
  unfold lineBreak at hMem
  rw [Utf8.encode_cons] at hMem
  rcases List.mem_append.mp hMem with hBreak | hIndent
  · rw [List.mem_singleton.mp hBreak]
    rfl
  · rcases List.mem_flatMap.mp hIndent with ⟨c, hChar, hByte⟩
    rw [List.eq_of_mem_replicate hChar] at hByte
    rw [List.mem_singleton.mp hByte]
    rfl

/-!
# Lists
-/

theorem encode_compactItems_eq (items : List Json) :
    encode (compactItems items) = separatedBytes [] printed true items :=
  encode_eq_separatedBytes compactItems [] compactChars rfl (fun _ => rfl) (fun _ _ _ => rfl) items

theorem encode_indentedItems_eq (level : Nat) (items : List Json) :
    encode (indentedItems level items) =
      separatedBytes (encode (lineBreak level)) (fun item => encode (indentedChars level item)) true
        items :=
  encode_eq_separatedBytes (indentedItems level) (lineBreak level) (indentedChars level) rfl
    (fun _ => rfl) (fun _ _ _ => rfl) items

theorem separated_printed {toBytes : Json → Bytes} {between after : Bytes}
    (hBetween : IsBlank between) (hAfter : IsBlank after) {items : List Json}
    (h : ∀ item ∈ items, toBytes item = printed item) :
    Separated (fun item bytes => bytes = printed item) true items
      (separatedBytes between toBytes true items ++ after) := by
  have hItems : Separated (fun item bytes => bytes = printed item) true (items.map id)
      (separatedBytes between toBytes true items ++ after) :=
    separated_separatedBytes id toBytes hBetween hAfter h true
  rwa [List.map_id] at hItems

theorem spells_compact {value : Json} (h : IsFlat value) : Spells value (printed value) := by
  cases value with
  | array items =>
      refine ⟨_, separated_printed isBlank_nil isBlank_nil fun _ _ => rfl, ?_⟩
      rw [List.append_nil, ← encode_compactItems_eq]
      show encode ('[' :: compactItems items ++ [']']) = _
      rw [List.cons_append, Utf8.encode_cons, Utf8.encode_append]
      rfl
  | object members => exact h.elim
  | null => rfl
  | bool b => rfl
  | number n => rfl
  | string s => rfl

theorem spells_indented {value : Json} (h : IsFlat value) (level : Nat) :
    Spells value (encode (indentedChars level value)) := by
  cases value with
  | array items =>
      have hSame : ∀ item ∈ items, encode (indentedChars (level + 1) item) = printed item := by
        intro item hMem
        rcases h item hMem with ⟨s, rfl⟩
        rfl
      cases items with
      | nil => exact ⟨[], .nil isBlank_nil, rfl⟩
      | cons item items =>
          refine ⟨_, separated_printed (isBlank_lineBreak (level + 1)) (isBlank_lineBreak level)
            hSame, ?_⟩
          rw [← encode_indentedItems_eq]
          show encode ('[' :: indentedItems (level + 1) (item :: items) ++ lineBreak level ++
            [']']) = _
          simp only [Utf8.encode_cons, Utf8.encode_append, List.cons_append, List.append_assoc]
          rfl
  | object members => exact h.elim
  | null => rfl
  | bool b => rfl
  | number n => rfl
  | string s => rfl

/-!
# Objects
-/

def compactMemberChars (member : String × Json) : List Char :=
  stringChars member.1 ++ ':' :: compactChars member.2

def indentedMemberChars (level : Nat) (member : String × Json) : List Char :=
  stringChars member.1 ++ ':' :: ' ' :: indentedChars level member.2

theorem encode_compactMembers_eq (members : List (String × Json)) :
    encode (compactMembers members) =
      separatedBytes [] (fun member => encode (compactMemberChars member)) true members :=
  encode_eq_separatedBytes compactMembers [] compactMemberChars rfl (fun _ => rfl)
    (fun _ _ _ => rfl) members

theorem encode_indentedMembers_eq (level : Nat) (members : List (String × Json)) :
    encode (indentedMembers level members) =
      separatedBytes (encode (lineBreak level))
        (fun member => encode (indentedMemberChars level member)) true members := by
  apply encode_eq_separatedBytes (indentedMembers level) (lineBreak level)
    (indentedMemberChars level) rfl
  · intro member
    simp only [indentedMembers, indentedMemberChars, List.append_assoc]
  · intro member next members
    simp only [indentedMembers, indentedMemberChars, List.append_assoc, List.cons_append]

theorem isObjectText_compact (members : List (String × Json)) :
    IsObjectText (members.map fun member => (member.1, printed member.2))
      (printed (.object members)) := by
  refine ⟨[], _, [], isBlank_nil, isBlank_nil, separated_separatedBytes _
    (fun member => encode (compactMemberChars member)) isBlank_nil isBlank_nil ?_ true, ?_⟩
  · intro member _
    refine ⟨[], [], isBlank_nil, isBlank_nil, ?_⟩
    unfold compactMemberChars
    rw [Utf8.encode_append, Utf8.encode_cons]
    rfl
  · rw [List.append_nil, ← encode_compactMembers_eq]
    show encode ('\x7b' :: compactMembers members ++ ['\x7d']) = _
    rw [List.cons_append, Utf8.encode_cons, Utf8.encode_append]
    rfl

theorem isObjectText_indented (level : Nat) (members : List (String × Json)) :
    IsObjectText (members.map fun member =>
        (member.1, encode (indentedChars (level + 1) member.2)))
      (encode (indentedChars level (.object members))) := by
  cases members with
  | nil => exact ⟨[], [], [], isBlank_nil, isBlank_nil, .nil isBlank_nil, rfl⟩
  | cons member members =>
      refine ⟨[], _, [], isBlank_nil, isBlank_nil, separated_separatedBytes _
        (fun member => encode (indentedMemberChars (level + 1) member))
        (isBlank_lineBreak (level + 1)) (isBlank_lineBreak level) ?_ true, ?_⟩
      · intro member _
        refine ⟨[], [0x20], isBlank_nil, by decide, ?_⟩
        unfold indentedMemberChars
        rw [Utf8.encode_append, Utf8.encode_cons, Utf8.encode_cons]
        rfl
      · rw [← encode_indentedMembers_eq]
        show encode ('\x7b' :: indentedMembers (level + 1) (member :: members) ++
          lineBreak level ++ ['\x7d']) = _
        simp only [Utf8.encode_cons, Utf8.encode_append, List.cons_append, List.append_assoc]
        rfl

end Json
end CatalogAudit
