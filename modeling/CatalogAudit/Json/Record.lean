import CatalogAudit.Json.Skip

/-!
# Typed reading

Where the shape of a document is known in advance it is read straight into its type. A value of
another type is a fault that names both. Records may be written as objects, in any order and with
members that nobody asks for, or as lists of their fields in declaration order.
-/

namespace CatalogAudit
namespace Json

open Utf8 (Bytes)

/-- A reader of one value, to be applied at its first byte or at blanks before it. -/
abbrev Reader (α : Type) := Cursor → Except Fault (α × Cursor)

/-!
# Values of the wrong type

The value is read as far as it takes to name it. A list or an object is named by its bracket.
-/

def foundNumber : Number → Found
  | .natural n => .natural n
  | .negative n => .negative n
  | .decimal d => .decimal d

def failType (expected : String) (c : Cursor) : Except Fault α :=
  match c.rest with
  | [] => c.failAhead .expectedValue
  | b :: _ =>
      if b = 0x6E then do
        let c ← Cursor.word [0x75, 0x6C, 0x6C] c.skip
        c.failHere (.wrongType .null expected)
      else if b = 0x74 then do
        let c ← Cursor.word [0x72, 0x75, 0x65] c.skip
        c.failHere (.wrongType (.bool true) expected)
      else if b = 0x66 then do
        let c ← Cursor.word [0x61, 0x6C, 0x73, 0x65] c.skip
        c.failHere (.wrongType (.bool false) expected)
      else if b = 0x2D then do
        let (n, c) ← readNumber true c.skip
        c.failHere (.wrongType (foundNumber n) expected)
      else if (digit? b).isSome then do
        let (n, c) ← readNumber false c
        c.failHere (.wrongType (foundNumber n) expected)
      else if b = 0x22 then do
        let (s, c) ← readString c.skip
        c.failHere (.wrongType (.string s) expected)
      else if b = 0x5B then c.failHere (.wrongType .sequence expected)
      else if b = 0x7B then c.failHere (.wrongType .map expected)
      else c.failAhead .expectedValue

/-- Passes blanks and looks at the first byte of the value, which has to be there. -/
def atValue (read : UInt8 → Reader α) : Reader α := fun c =>
  let c := c.skipBlank
  match c.rest with
  | [] => c.failAhead .eofInValue
  | b :: _ => read b c

/-!
# Scalars and lists
-/

def readText : Reader String :=
  atValue fun b c => if b = 0x22 then readString c.skip else failType "a string" c

def readFlag : Reader Bool :=
  atValue fun b c =>
    if b = 0x74 then do
      let c ← Cursor.word [0x72, 0x75, 0x65] c.skip
      return (true, c)
    else if b = 0x66 then do
      let c ← Cursor.word [0x61, 0x6C, 0x73, 0x65] c.skip
      return (false, c)
    else failType "a boolean" c

def sizeExpected : String := "usize"

def readSize : Reader Nat :=
  atValue fun b c => do
    let (n, c) ←
      if b = 0x2D then readNumber true c.skip
      else if (digit? b).isSome then readNumber false c
      else failType sizeExpected c
    match n with
    | .natural n => return (n, c)
    | .negative n => c.failHere (.wrongValue (.negative n) sizeExpected)
    | .decimal d => c.failHere (.wrongType (.decimal d) sizeExpected)

def readOptional (read : Reader α) : Reader (Option α) := fun c =>
  let c := c.skipBlank
  match c.rest with
  | 0x6E :: _ => do
      let c ← Cursor.word [0x75, 0x6C, 0x6C] c.skip
      return (none, c)
  | _ => do
      let (value, c) ← read c
      return (some value, c)

def readItemsWith (read : Reader α) : Nat → Bool → Cursor → Except Fault (List α × Cursor)
  | 0, _, c => c.failAhead .eofInList
  | fuel + 1, isFirst, c => do
      let (more, c) ← nextItem isFirst c
      if more then
        let (item, c) ← read c
        let (items, c) ← readItemsWith read fuel false c
        return (item :: items, c)
      else return ([], c.skip)

def readList (read : Reader α) : Reader (List α) :=
  atValue fun b c =>
    if b = 0x5B then readItemsWith read (c.rest.length + 1) true c.skip
    else failType "a sequence" c

/-!
# Records

A record is collected field by field in a draft, which knows what has been given. At the end the
draft is completed, with defaults or with a fault for what is missing.
-/

structure Field (δ : Type) where
  name : String
  isGiven : δ → Bool
  read : δ → Reader δ

structure Shape (δ : Type) (α : Type) where
  expected : String
  blank : δ
  fields : List (Field δ)
  complete : δ → Except Reason α
  /-- Completes a draft that was given as a list of only this many fields. -/
  completeShort : Nat → δ → Except Reason α

def failReason (p : Place) : Except Reason α → Except Fault α
  | .ok value => .ok value
  | .error reason => .error ⟨reason, p⟩

namespace Shape

/-- A repeated field is noticed after its name, or after the bracket that follows at once. -/
def afterRepeated (c : Cursor) : Place :=
  let c := c.skipBlank
  match c.rest with
  | 0x7D :: _ => c.ahead
  | _ => c.place

def readMembersInto (shape : Shape δ α) : Nat → Bool → δ → Cursor → Except Fault (δ × Cursor)
  | 0, _, _, c => c.failAhead .eofInObject
  | fuel + 1, isFirst, draft, c => do
      let (more, c) ← nextMember isFirst c
      if more then
        let (name, c) ← readString c.skip
        match shape.fields.find? (fun field => field.name == name) with
        | none => do
            let c ← readColon c
            let c ← skipValue c
            readMembersInto shape fuel false draft c
        | some field =>
            if field.isGiven draft then .error ⟨.duplicateField name, afterRepeated c⟩
            else do
              let c ← readColon c
              let (draft, c) ← field.read draft c
              readMembersInto shape fuel false draft c
      else return (draft, c.skip)

/-- Reads fields in order. The count tells how many were given before the list ended. -/
def readFieldsInto : List (Field δ) → Nat → δ → Cursor → Except Fault (Option Nat × δ × Cursor)
  | [], _, draft, c => .ok (none, draft, c)
  | field :: fields, given, draft, c => do
      let (more, c) ← nextItem (given == 0) c
      if more then
        let (draft, c) ← field.read draft c
        readFieldsInto fields (given + 1) draft c
      else return (some given, draft, c)

def closeList (c : Cursor) : Except Fault Cursor :=
  let c := c.skipBlank
  match c.rest with
  | [] => c.failAhead .eofInList
  | b :: _ =>
      if b = 0x5D then .ok c.skip
      else if b = 0x2C then
        let c := c.skip.skipBlank
        match c.rest with
        | 0x5D :: _ => c.failAhead .trailingComma
        | _ => c.failAhead .trailingCharacters
      else c.failAhead .trailingCharacters

def read (shape : Shape δ α) : Reader α :=
  atValue fun b c =>
    if b = 0x5B then do
      let (short, draft, c) ← readFieldsInto shape.fields 0 shape.blank c.skip
      match short with
      | some given =>
          let c := c.skip
          let value ← failReason c.place (shape.completeShort given draft)
          return (value, c)
      | none =>
          let c ← closeList c
          let value ← failReason c.place (shape.complete draft)
          return (value, c)
    else if b = 0x7B then do
      let (draft, c) ← shape.readMembersInto (c.rest.length + 1) true shape.blank c.skip
      let value ← failReason c.place (shape.complete draft)
      return (value, c)
    else failType shape.expected c

end Shape

def decode (read : Reader α) (bytes : Bytes) : Except Fault α := do
  let (value, c) ← read (.start bytes)
  finish c
  return value

end Json
end CatalogAudit
