import CatalogAudit.Json.Document

/-!
# Values that are passed over

A member that nobody asks for is only checked for its shape. Nesting is not limited, numbers may
be out of range, and strings need not spell characters. The open brackets are kept in a list.
-/

namespace CatalogAudit
namespace Json

open Utf8 (Bytes)

/-!
# Scalars
-/

def skipExponent (c : Cursor) : Except Fault Cursor :=
  let c := c.skip
  let c := match c.rest with
    | 0x2B :: _ => c.skip
    | 0x2D :: _ => c.skip
    | _ => c
  match c.rest with
  | [] => c.failHere .invalidNumber
  | b :: _ =>
      if (digit? b).isSome then .ok (skipDigits c.rest c.place)
      else c.skip.failHere .invalidNumber

def skipAfterInteger (c : Cursor) : Except Fault Cursor :=
  match c.rest with
  | 0x2E :: _ =>
      let c := c.skip
      match c.rest with
      | [] => c.failAhead .invalidNumber
      | b :: _ =>
          if (digit? b).isSome then
            let c := skipDigits c.rest c.place
            if atExponent c then skipExponent c else .ok c
          else c.failAhead .invalidNumber
  | _ => if atExponent c then skipExponent c else .ok c

def skipNumber (c : Cursor) : Except Fault Cursor :=
  match c.rest with
  | [] => c.failHere .invalidNumber
  | b :: _ =>
      match digit? b with
      | none => c.skip.failHere .invalidNumber
      | some 0 =>
          let c := c.skip
          match c.rest with
          | b' :: _ =>
              if (digit? b').isSome then c.failAhead .invalidNumber else skipAfterInteger c
          | [] => skipAfterInteger c
      | some _ => skipAfterInteger (skipDigits c.rest c.place)

def skipEscape (c : Cursor) : Except Fault Cursor :=
  match c.rest with
  | [] => c.failHere .eofInString
  | b :: _ =>
      let c := c.skip
      if (shortEscape? b).isSome then .ok c
      else if b = 0x75 then do
        let (_, c) ← readHex c
        return c
      else c.failHere .invalidEscape

def skipStringBytes : Nat → Cursor → Except Fault Cursor
  | 0, c => c.failHere .eofInString
  | fuel + 1, c =>
      match c.rest with
      | [] => c.failHere .eofInString
      | b :: _ =>
          if b = 0x22 then .ok c.skip
          else if b = 0x5C then do
            let c ← skipEscape c.skip
            skipStringBytes fuel c
          else if b < 0x20 then c.failHere .controlCharacter
          else skipStringBytes fuel c.skip

def skipString (c : Cursor) : Except Fault Cursor :=
  skipStringBytes (c.rest.length + 1) c

/-!
# Brackets

After a value the innermost open bracket says what may follow: a comma and another item, or the
closing bracket. Right after an opening bracket no comma is accepted.
-/

inductive Bracket where
  | list
  | object
deriving DecidableEq, Repr

/-- Closes brackets as long as closing ones follow. The result is empty when none is left open. -/
def closeBrackets : Nat → Bool → Bracket → List Bracket → Cursor →
    Except Fault (Option (Bracket × List Bracket) × Cursor)
  | 0, _, _, _, c => c.failAhead .eofInValue
  | fuel + 1, afterValue, bracket, outer, c =>
      let c := c.skipBlank
      match c.rest with
      | [] => c.failAhead (match bracket with | .list => .eofInList | .object => .eofInObject)
      | b :: _ =>
          let closes : Bool := match bracket with
            | .list => b = 0x5D
            | .object => b = 0x7D
          if afterValue ∧ b = 0x2C then .ok (some (bracket, outer), c.skip)
          else if closes then
            match outer with
            | [] => .ok (none, c.skip)
            | bracket' :: outer' => closeBrackets fuel true bracket' outer' c.skip
          else if afterValue then
            c.failAhead (match bracket with
              | .list => .expectedListEnd
              | .object => .expectedObjectEnd)
          else .ok (some (bracket, outer), c)

/-- In an object the next value is preceded by a name and a colon. -/
def skipName (bracket : Bracket) (c : Cursor) : Except Fault Cursor :=
  match bracket with
  | .list => .ok c
  | .object =>
      let c := c.skipBlank
      match c.rest with
      | [] => c.failAhead .eofInObject
      | b :: _ =>
          if b = 0x22 then do
            let c ← skipString c.skip
            readColon c
          else c.failAhead .keyNotString

/-- Passes over the values inside the open brackets until none is open. -/
def skipValues : Nat → List Bracket → Cursor → Except Fault Cursor
  | 0, _, c => c.failAhead .eofInValue
  | fuel + 1, brackets, c =>
      let c := c.skipBlank
      let proceed (afterValue : Bool) (brackets : List Bracket) (c : Cursor) :
          Except Fault Cursor :=
        match brackets with
        | [] => .ok c
        | bracket :: outer => do
            let (opened, c) ← closeBrackets fuel afterValue bracket outer c
            match opened with
            | none => return c
            | some (bracket, outer) =>
                let c ← skipName bracket c
                skipValues fuel (bracket :: outer) c
      match c.rest with
      | [] => c.failAhead .eofInValue
      | b :: _ =>
          if b = 0x6E then do
            proceed true brackets (← Cursor.word [0x75, 0x6C, 0x6C] c.skip)
          else if b = 0x74 then do
            proceed true brackets (← Cursor.word [0x72, 0x75, 0x65] c.skip)
          else if b = 0x66 then do
            proceed true brackets (← Cursor.word [0x61, 0x6C, 0x73, 0x65] c.skip)
          else if b = 0x2D then do
            proceed true brackets (← skipNumber c.skip)
          else if (digit? b).isSome then do
            proceed true brackets (← skipNumber c)
          else if b = 0x22 then do
            proceed true brackets (← skipString c.skip)
          else if b = 0x5B then proceed false (.list :: brackets) c.skip
          else if b = 0x7B then proceed false (.object :: brackets) c.skip
          else c.failAhead .expectedValue

def skipValue (c : Cursor) : Except Fault Cursor :=
  skipValues (fuelFor c.rest) [] c

end Json
end CatalogAudit
