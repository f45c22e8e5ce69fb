import CatalogAudit.Json.Record
import CatalogAudit.Proofs.Json.Strings

/-!
# Typed reading of printed values

What a reader needs to know about the compact form. A reader reads a value back if it takes exactly
the bytes of the value and leaves what follows. Lists and records of such values are read back as
well.
-/

namespace CatalogAudit
namespace Json

open Utf8 (Bytes encode)

/-- The reader takes these bytes for this value, whatever follows them. -/
def Reads (read : Reader α) (bytes : Bytes) (value : α) : Prop :=
  ∀ rest place, ∃ place', read ⟨bytes ++ rest, place⟩ = .ok (value, ⟨rest, place'⟩)

def printed (value : Json) : Bytes :=
  encode (compactChars value)

def BeginsValue (bytes : Bytes) : Prop :=
  ∃ b rest, bytes = b :: rest ∧ Cursor.isBlankByte b = false ∧ b ≠ 0x5D

theorem skipBlank_of_not_blank {b : UInt8} (h : Cursor.isBlankByte b = false) (rest : Bytes)
    (place : Place) : Cursor.skipBlank ⟨b :: rest, place⟩ = ⟨b :: rest, place⟩ := by
  unfold Cursor.skipBlank Cursor.skipBlankFrom
  rw [h]
  rfl

theorem atValue_of_not_blank {b : UInt8} (h : Cursor.isBlankByte b = false)
    (read : UInt8 → Reader α) (rest : Bytes) (place : Place) :
    atValue read ⟨b :: rest, place⟩ = read b ⟨b :: rest, place⟩ := by
  unfold atValue
  rw [skipBlank_of_not_blank h]

/-!
# Texts
-/

theorem printed_string (s : String) :
    printed (.string s) = 0x22 :: (encode (s.toList.flatMap escapedChar) ++ [0x22]) := by
  show encode (stringChars s) = _
  unfold stringChars
  rw [List.cons_append, Utf8.encode_cons, Utf8.encode_append]
  rfl

theorem beginsValue_string (s : String) : BeginsValue (printed (.string s)) := by
  rw [printed_string]
  exact ⟨0x22, _, rfl, rfl, by decide⟩

theorem reads_readText (s : String) : Reads readText (printed (.string s)) s := by
  intro rest place
  rw [printed_string, List.cons_append, List.append_assoc]
  unfold readText
  rw [atValue_of_not_blank rfl, if_pos rfl]
  exact readString_printed s rest (place.after 0x22)

/-!
# Lists

Items are separated by commas. The first one has none before it.
-/

def separator (isFirst : Bool) : Bytes :=
  if isFirst then [] else [0x2C]

theorem nextItem_separated {b : UInt8} (hBlank : Cursor.isBlankByte b = false) (hEnd : b ≠ 0x5D)
    (isFirst : Bool) (rest : Bytes) (place : Place) :
    ∃ place', nextItem isFirst ⟨separator isFirst ++ b :: rest, place⟩ =
      .ok (true, ⟨b :: rest, place'⟩) := by
  cases isFirst with
  | true =>
      refine ⟨place, ?_⟩
      show nextItem true ⟨b :: rest, place⟩ = _
      unfold nextItem
      rw [skipBlank_of_not_blank hBlank]
      simp only [hEnd, if_false, if_true]
  | false =>
      refine ⟨place.after 0x2C, ?_⟩
      show nextItem false ⟨0x2C :: b :: rest, place⟩ = _
      unfold nextItem
      rw [skipBlank_of_not_blank rfl]
      have hNext := skipBlank_of_not_blank hBlank rest (place.after 0x2C)
      simp [Cursor.skip, hNext, hEnd]

theorem nextItem_end (isFirst : Bool) (rest : Bytes) (place : Place) :
    nextItem isFirst ⟨0x5D :: rest, place⟩ = .ok (false, ⟨0x5D :: rest, place⟩) := by
  unfold nextItem
  rw [skipBlank_of_not_blank rfl]
  rfl

section Items

variable {α : Type} (toJson : α → Json)

def itemBytes : Bool → List α → Bytes
  | _, [] => []
  | isFirst, x :: xs => separator isFirst ++ printed (toJson x) ++ itemBytes false xs

theorem encode_compactItems (xs : List α) :
    encode (compactItems (xs.map toJson)) = itemBytes toJson true xs := by
  induction xs with
  | nil => rfl
  | cons x xs ih =>
      cases xs with
      | nil =>
          show printed (toJson x) = printed (toJson x) ++ []
          rw [List.append_nil]
      | cons y ys =>
          have hSplit : compactItems ((x :: y :: ys).map toJson) =
              compactChars (toJson x) ++ ',' :: compactItems ((y :: ys).map toJson) := rfl
          rw [hSplit, Utf8.encode_append, Utf8.encode_cons, ih]
          rfl

theorem length_le_itemBytes (isFirst : Bool) (xs : List α)
    (hBegin : ∀ x ∈ xs, BeginsValue (printed (toJson x))) :
    xs.length ≤ (itemBytes toJson isFirst xs).length := by
  induction xs generalizing isFirst with
  | nil => exact Nat.le_refl _
  | cons x xs ih =>
      have hTail := ih false (fun y hMem => hBegin y (List.mem_cons_of_mem x hMem))
      rcases hBegin x (List.mem_cons_self ..) with ⟨b, rest, hBytes, _, _⟩
      rw [itemBytes, hBytes]
      simp only [List.length_append, List.length_cons]
      omega

theorem readItemsWith_itemBytes {read : Reader α} {xs : List α}
    (hRead : ∀ x ∈ xs, Reads read (printed (toJson x)) x)
    (hBegin : ∀ x ∈ xs, BeginsValue (printed (toJson x))) (isFirst : Bool) {fuel : Nat}
    (hFuel : xs.length < fuel) (rest : Bytes) (place : Place) :
    ∃ place', readItemsWith read fuel isFirst
      ⟨itemBytes toJson isFirst xs ++ 0x5D :: rest, place⟩ = .ok (xs, ⟨rest, place'⟩) := by
  induction xs generalizing isFirst fuel place with
  | nil =>
      obtain ⟨fuel, rfl⟩ := Nat.exists_eq_add_of_lt hFuel
      refine ⟨place.after 0x5D, ?_⟩
      rw [itemBytes, List.nil_append, readItemsWith, nextItem_end]
      rfl
  | cons x xs ih =>
      obtain ⟨fuel, rfl⟩ := Nat.exists_eq_add_of_lt hFuel
      rcases hBegin x (List.mem_cons_self ..) with ⟨b, more, hBytes, hBlank, hEnd⟩
      rcases nextItem_separated hBlank hEnd isFirst
        (more ++ (itemBytes toJson false xs ++ 0x5D :: rest)) place with ⟨first, hNext⟩
      rcases hRead x (List.mem_cons_self ..) (itemBytes toJson false xs ++ 0x5D :: rest) first with
        ⟨second, hItem⟩
      rcases ih (fun y hMem => hRead y (List.mem_cons_of_mem x hMem))
        (fun y hMem => hBegin y (List.mem_cons_of_mem x hMem)) false
        (show xs.length < (x :: xs).length + fuel by simp; omega) second with ⟨third, hItems⟩
      refine ⟨third, ?_⟩
      have hInput : itemBytes toJson isFirst (x :: xs) ++ 0x5D :: rest =
          separator isFirst ++ b :: (more ++ (itemBytes toJson false xs ++ 0x5D :: rest)) := by
        rw [itemBytes, hBytes]
        simp only [List.append_assoc, List.cons_append]
      rw [hInput, readItemsWith, hNext]
      rw [hBytes, List.cons_append] at hItem
      simp only [bind, Except.bind, if_true, hItem, hItems]
      rfl

theorem reads_readList {read : Reader α} {xs : List α}
    (hRead : ∀ x ∈ xs, Reads read (printed (toJson x)) x)
    (hBegin : ∀ x ∈ xs, BeginsValue (printed (toJson x))) :
    Reads (readList read) (printed (.array (xs.map toJson))) xs := by
  intro rest place
  have hBytes : printed (.array (xs.map toJson)) ++ rest =
      0x5B :: (itemBytes toJson true xs ++ 0x5D :: rest) := by
    show encode ('[' :: compactItems (xs.map toJson) ++ [']']) ++ rest = _
    rw [List.cons_append, Utf8.encode_cons, Utf8.encode_append, encode_compactItems]
    simp only [List.append_assoc]
    rfl
  have hFuel : xs.length < (itemBytes toJson true xs ++ 0x5D :: rest).length + 2 := by
    have hLe := length_le_itemBytes toJson true xs hBegin
    rw [List.length_append]
    omega
  rw [hBytes]
  unfold readList
  rw [atValue_of_not_blank rfl, if_pos rfl]
  exact readItemsWith_itemBytes toJson hRead hBegin true hFuel rest (place.after 0x5B)

end Items

theorem beginsValue_object (members : List (String × Json)) :
    BeginsValue (printed (.object members)) :=
  ⟨0x7B, _, rfl, rfl, by decide⟩

/-!
# Records

A member is its name, a colon, and its value. A field that has not been given takes the value into
the draft.
-/

def memberBytes : Bool → List (String × Json) → Bytes
  | _, [] => []
  | isFirst, (name, value) :: members =>
      separator isFirst ++ printed (.string name) ++ 0x3A :: printed value ++
        memberBytes false members

theorem encode_compactMembers (members : List (String × Json)) :
    encode (compactMembers members) = memberBytes true members := by
  induction members with
  | nil => rfl
  | cons member members ih =>
      obtain ⟨name, value⟩ := member
      cases members with
      | nil =>
          show encode (stringChars name ++ ':' :: compactChars value) = _
          rw [Utf8.encode_append, Utf8.encode_cons]
          show printed (.string name) ++ 0x3A :: printed value = _
          simp [memberBytes, separator]
      | cons next rest =>
          have hSplit : compactMembers ((name, value) :: next :: rest) =
              stringChars name ++ ':' :: compactChars value ++
                ',' :: compactMembers (next :: rest) := rfl
          rw [hSplit, Utf8.encode_append, Utf8.encode_append, Utf8.encode_cons, Utf8.encode_cons,
            ih]
          rfl

theorem length_le_memberBytes (isFirst : Bool) (members : List (String × Json)) :
    members.length ≤ (memberBytes isFirst members).length := by
  induction members generalizing isFirst with
  | nil => exact Nat.le_refl _
  | cons member members ih =>
      obtain ⟨name, value⟩ := member
      have hTail := ih false
      rw [memberBytes]
      simp only [List.length_append, List.length_cons]
      omega

theorem nextMember_separated (isFirst : Bool) (rest : Bytes) (place : Place) :
    ∃ place', nextMember isFirst ⟨separator isFirst ++ 0x22 :: rest, place⟩ =
      .ok (true, ⟨0x22 :: rest, place'⟩) := by
  cases isFirst with
  | true => exact ⟨place, rfl⟩
  | false => exact ⟨place.after 0x2C, rfl⟩

theorem nextMember_end (isFirst : Bool) (rest : Bytes) (place : Place) :
    nextMember isFirst ⟨0x7D :: rest, place⟩ = .ok (false, ⟨0x7D :: rest, place⟩) := by
  unfold nextMember
  rw [skipBlank_of_not_blank rfl]
  rfl

section Members

variable {δ α : Type} {shape : Shape δ α}

/-- The member belongs to a field that the draft does not have yet, and leads to the next draft. -/
def Takes (shape : Shape δ α) (draft : δ) (name : String) (value : Json) (next : δ) : Prop :=
  ∃ field, shape.fields.find? (fun field => field.name == name) = some field ∧
    field.isGiven draft = false ∧ Reads (field.read draft) (printed value) next

theorem reads_give {read : Reader β} {bytes : Bytes} {value : β} (h : Reads read bytes value)
    (give : β → δ) :
    Reads (fun c => do
      let (value, c) ← read c
      return (give value, c)) bytes (give value) := by
  intro rest place
  rcases h rest place with ⟨place', hRead⟩
  refine ⟨place', ?_⟩
  simp only [hRead]
  rfl

theorem readMembersInto_cons {name : String} {value : Json} {draft next : δ}
    (hTakes : Takes shape draft name value next) (members : List (String × Json)) (fuel : Nat)
    (isFirst : Bool) (rest : Bytes) (place : Place) :
    ∃ place', shape.readMembersInto (fuel + 1) isFirst draft
        ⟨memberBytes isFirst ((name, value) :: members) ++ rest, place⟩ =
      shape.readMembersInto fuel false next ⟨memberBytes false members ++ rest, place'⟩ := by
  rcases hTakes with ⟨field, hFind, hNew, hRead⟩
  rcases nextMember_separated isFirst (encode (name.toList.flatMap escapedChar) ++
    0x22 :: 0x3A :: (printed value ++ (memberBytes false members ++ rest))) place with
    ⟨first, hNext⟩
  rcases readString_printed name
    (0x3A :: (printed value ++ (memberBytes false members ++ rest))) (first.after 0x22) with
    ⟨second, hName⟩
  rcases hRead (memberBytes false members ++ rest) (second.after 0x3A) with ⟨third, hValue⟩
  have hInput : memberBytes isFirst ((name, value) :: members) ++ rest =
      separator isFirst ++ 0x22 :: (encode (name.toList.flatMap escapedChar) ++
        0x22 :: 0x3A :: (printed value ++ (memberBytes false members ++ rest))) := by
    rw [memberBytes, printed_string]
    simp only [List.append_assoc, List.cons_append, List.nil_append]
  have hColon : readColon ⟨0x3A :: (printed value ++ (memberBytes false members ++ rest)), second⟩ =
      .ok ⟨printed value ++ (memberBytes false members ++ rest), second.after 0x3A⟩ := rfl
  refine ⟨third, ?_⟩
  rw [hInput, Shape.readMembersInto, hNext]
  simp only [bind, Except.bind, if_true, Cursor.skip, hName, hFind, hNew, hColon, hValue]
  rfl

theorem readMembersInto_end (fuel : Nat) (isFirst : Bool) (draft : δ) (rest : Bytes)
    (place : Place) :
    shape.readMembersInto (fuel + 1) isFirst draft ⟨0x7D :: rest, place⟩ =
      .ok (draft, ⟨rest, place.after 0x7D⟩) := by
  rw [Shape.readMembersInto, nextMember_end]
  rfl

/-- A record is read back if the drafts lead to it, whatever fuel is left at the end. -/
theorem reads_read {members : List (String × Json)} {draft : δ} {value : α}
    (hMembers : ∀ fuel rest place, ∃ place',
      shape.readMembersInto (fuel + members.length + 1) true shape.blank
          ⟨memberBytes true members ++ 0x7D :: rest, place⟩ = .ok (draft, ⟨rest, place'⟩))
    (hComplete : shape.complete draft = .ok value) :
    Reads shape.read (printed (.object members)) value := by
  intro rest place
  have hBytes : printed (.object members) ++ rest =
      0x7B :: (memberBytes true members ++ 0x7D :: rest) := by
    show encode ('\x7b' :: compactMembers members ++ ['\x7d']) ++ rest = _
    rw [List.cons_append, Utf8.encode_cons, Utf8.encode_append, encode_compactMembers]
    simp only [List.append_assoc]
    rfl
  have hLength : members.length + 1 ≤
      (memberBytes true members ++ 0x7D :: rest).length + 1 + 1 := by
    have hLe := length_le_memberBytes true members
    rw [List.length_append]
    omega
  obtain ⟨fuel, hFuel⟩ := Nat.exists_eq_add_of_le' hLength
  rcases hMembers fuel rest (place.after 0x7B) with ⟨place', hRead⟩
  have hDraft : shape.readMembersInto ((memberBytes true members ++ 0x7D :: rest).length + 1 + 1)
      true shape.blank ⟨memberBytes true members ++ 0x7D :: rest, place.after 0x7B⟩ =
        .ok (draft, ⟨rest, place'⟩) := by
    rw [hFuel, ← Nat.add_assoc]
    exact hRead
  refine ⟨place', ?_⟩
  rw [hBytes]
  unfold Shape.read
  rw [atValue_of_not_blank rfl, if_neg (by decide), if_pos rfl]
  simp only [Cursor.skip, List.length_cons, bind, Except.bind, hDraft, hComplete]
  rfl

end Members

/-!
# Documents
-/

theorem decode_of_reads {read : Reader α} {bytes : Bytes} {value : α}
    (h : Reads read bytes value) : decode read bytes = .ok value := by
  rcases h [] ⟨1, 0⟩ with ⟨place', hRead⟩
  rw [List.append_nil] at hRead
  unfold decode Cursor.start
  rw [hRead]
  rfl

end Json
end CatalogAudit
