import CatalogAudit.Json.Scalar

/-!
# Documents

A document is one value, with blanks around it and nothing else. Arrays and objects may be nested
to a limited depth. What is read keeps repeated members; `Json.parse` merges them.
-/

namespace CatalogAudit
namespace Json

open Utf8 (Bytes)

/-- How deep arrays and objects may be nested, counted so that zero admits none. -/
def depthLimit : Nat := 127

/-!
# Punctuation between items

The same rules hold for every list and every object, whatever is read for its items.
-/

/-- Whether another item follows, the cursor then being at its first byte. -/
def nextItem (isFirst : Bool) (c : Cursor) : Except Fault (Bool × Cursor) :=
  let c := c.skipBlank
  match c.rest with
  | [] => c.failAhead .eofInList
  | b :: _ =>
      if b = 0x5D then .ok (false, c)
      else if isFirst then .ok (true, c)
      else if b = 0x2C then
        let c := c.skip.skipBlank
        match c.rest with
        | [] => c.failAhead .eofInValue
        | b' :: _ => if b' = 0x5D then c.failAhead .trailingComma else .ok (true, c)
      else c.failAhead .expectedListEnd

def nextMember (isFirst : Bool) (c : Cursor) : Except Fault (Bool × Cursor) :=
  let c := c.skipBlank
  match c.rest with
  | [] => c.failAhead .eofInObject
  | b :: _ =>
      if b = 0x7D then .ok (false, c)
      else if isFirst then
        if b = 0x22 then .ok (true, c) else c.failAhead .keyNotString
      else if b = 0x2C then
        let c := c.skip.skipBlank
        match c.rest with
        | [] => c.failAhead .eofInValue
        | b' :: _ =>
            if b' = 0x22 then .ok (true, c)
            else if b' = 0x7D then c.failAhead .trailingComma
            else c.failAhead .keyNotString
      else c.failAhead .expectedObjectEnd

def readColon (c : Cursor) : Except Fault Cursor :=
  let c := c.skipBlank
  match c.rest with
  | [] => c.failAhead .eofInObject
  | b :: _ => if b = 0x3A then .ok c.skip else c.failAhead .expectedColon

def readName (c : Cursor) : Except Fault (String × Cursor) := do
  let (name, c) ← readString c.skip
  let c ← readColon c
  return (name, c)

/-!
# Values

The first number limits the recursion: each step either reads a byte or begins an item that does,
so twice the number of bytes suffices. The second is the depth that is left.
-/

mutual

def readValue : Nat → Nat → Cursor → Except Fault (Json × Cursor)
  | 0, _, c => c.failAhead .eofInValue
  | fuel + 1, depth, c =>
      let c := c.skipBlank
      match c.rest with
      | [] => c.failAhead .eofInValue
      | b :: _ =>
          if b = 0x6E then do
            let c ← Cursor.word [0x75, 0x6C, 0x6C] c.skip
            return (.null, c)
          else if b = 0x74 then do
            let c ← Cursor.word [0x72, 0x75, 0x65] c.skip
            return (.bool true, c)
          else if b = 0x66 then do
            let c ← Cursor.word [0x61, 0x6C, 0x73, 0x65] c.skip
            return (.bool false, c)
          else if b = 0x2D then do
            let (n, c) ← readNumber true c.skip
            return (.number n, c)
          else if (digit? b).isSome then do
            let (n, c) ← readNumber false c
            return (.number n, c)
          else if b = 0x22 then do
            let (s, c) ← readString c.skip
            return (.string s, c)
          else if b = 0x5B then
            match depth with
            | 0 => c.failAhead .tooDeep
            | depth + 1 => do
                let (items, c) ← readItems fuel depth true c.skip
                return (.array items, c)
          else if b = 0x7B then
            match depth with
            | 0 => c.failAhead .tooDeep
            | depth + 1 => do
                let (members, c) ← readMembers fuel depth true c.skip
                return (.object members, c)
          else c.failAhead .expectedValue

def readItems : Nat → Nat → Bool → Cursor → Except Fault (List Json × Cursor)
  | 0, _, _, c => c.failAhead .eofInValue
  | fuel + 1, depth, isFirst, c => do
      let (more, c) ← nextItem isFirst c
      if more then
        let (item, c) ← readValue fuel depth c
        let (items, c) ← readItems fuel depth false c
        return (item :: items, c)
      else return ([], c.skip)

def readMembers : Nat → Nat → Bool → Cursor → Except Fault (List (String × Json) × Cursor)
  | 0, _, _, c => c.failAhead .eofInValue
  | fuel + 1, depth, isFirst, c => do
      let (more, c) ← nextMember isFirst c
      if more then
        let (name, c) ← readName c
        let (value, c) ← readValue fuel depth c
        let (members, c) ← readMembers fuel depth false c
        return ((name, value) :: members, c)
      else return ([], c.skip)

end

/-!
# Whole documents
-/

def fuelFor (bytes : Bytes) : Nat :=
  2 * bytes.length + 2

def finish (c : Cursor) : Except Fault Unit :=
  let c := c.skipBlank
  match c.rest with
  | [] => .ok ()
  | _ :: _ => c.failAhead .trailingCharacters

/-- The document as it is written, with repeated members. -/
def parseWritten (depth : Nat) (bytes : Bytes) : Except Fault Json := do
  let (value, c) ← readValue (fuelFor bytes) depth (.start bytes)
  finish c
  return value

def parse (bytes : Bytes) : Except Fault Json := do
  let value ← parseWritten depthLimit bytes
  return value.merged

end Json
end CatalogAudit
