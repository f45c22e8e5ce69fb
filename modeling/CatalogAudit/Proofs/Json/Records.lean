import CatalogAudit.Proofs.Json.Spelled

/-!
# Records with members of all kinds

A record is read member by member. A known name that comes for the first time is taken by its
field, and any other name is passed over with its value.
-/

namespace CatalogAudit
namespace Json

open Utf8 (Bytes encode)

def IsWrittenMember (member : String × Bytes) (bytes : Bytes) : Prop :=
  IsMember (printed (.string member.1)) member.2 bytes

/-- The text of an object with these members, whatever blanks it has. -/
def IsObjectText (members : List (String × Bytes)) (text : Bytes) : Prop :=
  ∃ before inside after, IsBlank before ∧ IsBlank after ∧
    Separated IsWrittenMember true members inside ∧
    text = before ++ 0x7B :: (inside ++ 0x7D :: after)

section Members

variable {δ α : Type} {shape : Shape δ α}

/-- The members lead from one draft to another. -/
inductive Collects (shape : Shape δ α) : δ → List (String × Bytes) → δ → Prop
  | nil {draft : δ} : Collects shape draft [] draft
  | passed {draft draft' : δ} {name : String} {value : Bytes} {members : List (String × Bytes)}
      (hUnknown : shape.fields.find? (fun field => field.name == name) = none)
      (hValue : IsValue value) (hRest : Collects shape draft members draft') :
      Collects shape draft ((name, value) :: members) draft'
  | taken {draft next draft' : δ} {name : String} {value : Bytes}
      {members : List (String × Bytes)} {field : Field δ}
      (hField : shape.fields.find? (fun field => field.name == name) = some field)
      (hNew : field.isGiven draft = false) (hRead : ReadsSpaced (field.read draft) value next)
      (hRest : Collects shape next members draft') :
      Collects shape draft ((name, value) :: members) draft'

theorem ReadsSpaced.give {β : Type} {read : Reader β} {text : Bytes} {value : β}
    (h : ReadsSpaced read text value) (give : β → δ) :
    ReadsSpaced (fun c => do
      let (value, c) ← read c
      return (give value, c)) text (give value) := by
  constructor
  case passesBlanks =>
    intro blanks rest place hBlanks
    rcases h.passesBlanks blanks rest place hBlanks with ⟨place', hSame⟩
    exact ⟨place', by simp only [hSame]⟩
  case readsBefore =>
    intro rest place hRest
    rcases h.readsBefore rest place hRest with ⟨place', hRead⟩
    refine ⟨place', ?_⟩
    simp only [hRead]
    rfl

theorem nextMember_spaced (isFirst : Bool) {before between : Bytes} (hBefore : IsBlank before)
    (hBetween : IsBlank between) (rest : Bytes) (place : Place) :
    ∃ place', nextMember isFirst
        ⟨before ++ (separator isFirst ++ (between ++ 0x22 :: rest)), place⟩ =
      .ok (true, ⟨0x22 :: rest, place'⟩) := by
  have hQuote : Cursor.isBlankByte 0x22 = false := rfl
  cases isFirst with
  | true =>
      rcases skipBlank_before (hBefore.append hBetween) hQuote rest place with ⟨place', hSkip⟩
      refine ⟨place', ?_⟩
      rw [List.append_assoc] at hSkip
      show nextMember true ⟨before ++ (between ++ 0x22 :: rest), place⟩ = _
      unfold nextMember
      rw [hSkip]
      rfl
  | false =>
      rcases skipBlank_before hBefore (by decide : Cursor.isBlankByte 0x2C = false)
        (between ++ 0x22 :: rest) place with ⟨middle, hSkip⟩
      rcases skipBlank_before hBetween hQuote rest (middle.after 0x2C) with ⟨place', hNext⟩
      refine ⟨place', ?_⟩
      show nextMember false ⟨before ++ 0x2C :: (between ++ 0x22 :: rest), place⟩ = _
      unfold nextMember
      rw [hSkip]
      simp [Cursor.skip, hNext]

theorem nextMember_closing (isFirst : Bool) {blanks : Bytes} (hBlanks : IsBlank blanks)
    (rest : Bytes) (place : Place) :
    ∃ place', nextMember isFirst ⟨blanks ++ 0x7D :: rest, place⟩ =
      .ok (false, ⟨0x7D :: rest, place'⟩) := by
  rcases skipBlank_before hBlanks (by decide : Cursor.isBlankByte 0x7D = false) rest place with
    ⟨place', hSkip⟩
  refine ⟨place', ?_⟩
  unfold nextMember
  rw [hSkip]
  rfl

theorem exists_member_steps (isFirst : Bool) {before between bytes value : Bytes} {name : String}
    (hBefore : IsBlank before) (hBetween : IsBlank between)
    (hMember : IsWrittenMember (name, value) bytes) (rest : Bytes) (place : Place) :
    ∃ atName behindName blanks place',
      nextMember isFirst ⟨before ++ (separator isFirst ++ (between ++ (bytes ++ rest))), place⟩ =
        .ok (true, atName) ∧
      readString atName.skip = .ok (name, behindName) ∧
      readColon behindName = .ok ⟨blanks ++ (value ++ rest), place'⟩ ∧ IsBlank blanks := by
  rcases hMember with ⟨beforeColon, afterColon, hBeforeColon, hAfterColon, rfl⟩
  rcases nextMember_spaced isFirst hBefore hBetween
    (encode (name.toList.flatMap escapedChar) ++ 0x22 :: (beforeColon ++ 0x3A ::
      (afterColon ++ (value ++ rest)))) place with ⟨first, hNext⟩
  rcases readString_printed name (beforeColon ++ 0x3A :: (afterColon ++ (value ++ rest)))
    (first.after 0x22) with ⟨second, hName⟩
  rcases readColon_before hBeforeColon (afterColon ++ (value ++ rest)) second with
    ⟨third, hColon⟩
  refine ⟨⟨0x22 :: (encode (name.toList.flatMap escapedChar) ++ 0x22 :: (beforeColon ++ 0x3A ::
    (afterColon ++ (value ++ rest)))), first⟩, _, afterColon, third, ?_, hName, hColon, hAfterColon⟩
  rw [← hNext, printed_string]
  simp only [List.append_assoc, List.cons_append, List.nil_append]

theorem length_lt_of_member {isFirst : Bool} {before between bytes inside : Bytes}
    {member : String × Bytes} (hMember : IsWrittenMember member bytes) {fuel : Nat}
    (hFuel : (before ++ (separator isFirst ++ (between ++ (bytes ++ inside)))).length < fuel + 1) :
    inside.length < fuel := by
  rcases hMember with ⟨_, _, _, _, rfl⟩
  simp only [List.length_append, List.length_cons] at hFuel
  omega

section Member

variable {isFirst : Bool} {before between bytes value : Bytes} {name : String}

theorem exists_readMembersInto_passed {draft : δ} (hBefore : IsBlank before)
    (hBetween : IsBlank between) (hMember : IsWrittenMember (name, value) bytes)
    (hUnknown : shape.fields.find? (fun field => field.name == name) = none)
    (hValue : IsValue value) (fuel : Nat) {rest : Bytes} (hRest : EndsValue rest) (place : Place) :
    ∃ place', shape.readMembersInto (fuel + 1) isFirst draft
        ⟨before ++ (separator isFirst ++ (between ++ (bytes ++ rest))), place⟩ =
      shape.readMembersInto fuel false draft ⟨rest, place'⟩ := by
  rcases exists_member_steps isFirst hBefore hBetween hMember rest place with
    ⟨atName, behindName, blanks, middle, hNext, hName, hColon, hBlanks⟩
  rcases skipValue_append hBlanks hValue hRest middle with ⟨place', hSkip⟩
  refine ⟨place', ?_⟩
  rw [Shape.readMembersInto, hNext]
  simp only [bind, Except.bind, if_true, hName, hUnknown, hColon, hSkip]

theorem exists_readMembersInto_taken {draft next : δ} {field : Field δ} (hBefore : IsBlank before)
    (hBetween : IsBlank between) (hMember : IsWrittenMember (name, value) bytes)
    (hField : shape.fields.find? (fun field => field.name == name) = some field)
    (hNew : field.isGiven draft = false) (hValue : ReadsSpaced (field.read draft) value next)
    (fuel : Nat) {rest : Bytes} (hRest : EndsValue rest) (place : Place) :
    ∃ place', shape.readMembersInto (fuel + 1) isFirst draft
        ⟨before ++ (separator isFirst ++ (between ++ (bytes ++ rest))), place⟩ =
      shape.readMembersInto fuel false next ⟨rest, place'⟩ := by
  rcases exists_member_steps isFirst hBefore hBetween hMember rest place with
    ⟨atName, behindName, blanks, middle, hNext, hName, hColon, hBlanks⟩
  rcases hValue.exists_read hBlanks hRest middle with ⟨place', hTaken⟩
  refine ⟨place', ?_⟩
  rw [Shape.readMembersInto, hNext]
  simp only [bind, Except.bind, if_true, hName, hField, hNew, hColon, hTaken, Bool.false_eq_true,
    if_false]

end Member

theorem readMembersInto_append {draft draft' : δ} {members : List (String × Bytes)}
    (hCollects : Collects shape draft members draft') {isFirst : Bool} {inside : Bytes}
    (h : Separated IsWrittenMember isFirst members inside) {fuel : Nat}
    (hFuel : inside.length < fuel) (rest : Bytes) (place : Place) :
    ∃ place', shape.readMembersInto fuel isFirst draft ⟨inside ++ 0x7D :: rest, place⟩ =
      .ok (draft', ⟨rest, place'⟩) := by
  have hClosing : endsValueByte 0x7D = true := rfl
  obtain ⟨fuel, rfl⟩ := Nat.exists_eq_add_one_of_ne_zero (Nat.ne_zero_of_lt hFuel)
  induction hCollects generalizing isFirst inside fuel place with
  | nil =>
      cases h with
      | nil hBlanks =>
          rcases nextMember_closing isFirst hBlanks rest place with ⟨middle, hNext⟩
          refine ⟨middle.after 0x7D, ?_⟩
          rw [Shape.readMembersInto, hNext]
          rfl
  | passed hUnknown hValue _ ih =>
      cases h with
      | cons hBefore hBetween hMember hRest =>
          have hMore := length_lt_of_member hMember hFuel
          rcases exists_readMembersInto_passed hBefore hBetween hMember hUnknown hValue fuel
            (hRest.endsValue hClosing rest) place with ⟨middle, hStep⟩
          obtain ⟨fuel, rfl⟩ := Nat.exists_eq_add_one_of_ne_zero (Nat.ne_zero_of_lt hMore)
          rcases ih hRest middle fuel hMore with ⟨place', hRead⟩
          refine ⟨place', ?_⟩
          simp only [List.append_assoc]
          exact hStep.trans hRead
  | taken hField hNew hValue _ ih =>
      cases h with
      | cons hBefore hBetween hMember hRest =>
          have hMore := length_lt_of_member hMember hFuel
          rcases exists_readMembersInto_taken hBefore hBetween hMember hField hNew hValue fuel
            (hRest.endsValue hClosing rest) place with ⟨middle, hStep⟩
          obtain ⟨fuel, rfl⟩ := Nat.exists_eq_add_one_of_ne_zero (Nat.ne_zero_of_lt hMore)
          rcases ih hRest middle fuel hMore with ⟨place', hRead⟩
          refine ⟨place', ?_⟩
          simp only [List.append_assoc]
          exact hStep.trans hRead

/-- A document is decoded to what the drafts of its members lead to. -/
theorem decode_of_collects {members : List (String × Bytes)} {text : Bytes}
    (hText : IsObjectText members text) {draft : δ}
    (hCollects : Collects shape shape.blank members draft) {value : α}
    (hComplete : shape.complete draft = .ok value) : decode shape.read text = .ok value := by
  rcases hText with ⟨before, inside, after, hBefore, hAfter, hInside, rfl⟩
  rcases skipBlank_before hBefore (by decide : Cursor.isBlankByte 0x7B = false)
    (inside ++ 0x7D :: after) ⟨1, 0⟩ with ⟨first, hSkip⟩
  have hFuel : inside.length < (0x7B :: (inside ++ 0x7D :: after)).length + 1 := by
    simp only [List.length_append, List.length_cons]
    omega
  rcases readMembersInto_append hCollects hInside hFuel after (first.after 0x7B) with
    ⟨second, hMembers⟩
  have hRead : shape.read ⟨before ++ 0x7B :: (inside ++ 0x7D :: after), ⟨1, 0⟩⟩ =
      .ok (value, ⟨after, second⟩) := by
    unfold Shape.read atValue
    rw [hSkip]
    dsimp only
    rw [if_neg (by decide), if_pos rfl]
    simp only [Cursor.skip, bind, Except.bind, hMembers, hComplete]
    rfl
  have hFinish : finish ⟨after, second⟩ = .ok () := by
    rcases skipBlank_append hAfter [] second with ⟨third, hEnd⟩
    rw [List.append_nil] at hEnd
    unfold finish
    rw [hEnd]
    rfl
  unfold decode Cursor.start
  rw [hRead]
  simp only [bind, Except.bind, hFinish]
  rfl

end Members

end Json
end CatalogAudit
