import CatalogAudit.Json.Approximation
import CatalogAudit.Text.Quoted
import CatalogAudit.Text.Utf8

/-!
# Reading positions and reading faults

A cursor is the unread part of a byte sequence together with the place that has been reached.
Lines count from one, and the column is the number of bytes read on the line, so that it names the
byte read last. A fault names a reason and a place.
-/

namespace CatalogAudit
namespace Json

open Utf8 (Bytes)

structure Place where
  line : Nat
  column : Nat
deriving DecidableEq, Repr

def Place.after (p : Place) (b : UInt8) : Place :=
  if b = 0x0A then ⟨p.line + 1, 0⟩ else ⟨p.line, p.column + 1⟩

/-!
# Reasons

What may be found where something else is expected is named apart, since messages show both.
-/

inductive Found where
  | null
  | bool (b : Bool)
  | natural (n : Nat)
  | negative (n : Nat)
  | decimal (d : Decimal)
  | string (s : String)
  | sequence
  | map
deriving DecidableEq, Repr

def Found.message : Found → String
  | .null => "null"
  | .bool b => "boolean `" ++ (if b then "true" else "false") ++ "`"
  | .natural n => "integer `" ++ toString n ++ "`"
  | .negative n => "integer `-" ++ toString n ++ "`"
  | .decimal d => "floating point `" ++ d.text ++ "`"
  | .string s => "string " ++ Text.quoted s
  | .sequence => "sequence"
  | .map => "map"

inductive Reason where
  | eofInValue
  | eofInList
  | eofInObject
  | eofInString
  | expectedColon
  | expectedListEnd
  | expectedObjectEnd
  | expectedWord
  | expectedValue
  | invalidEscape
  | invalidNumber
  | numberOutOfRange
  | invalidCodePoint
  | controlCharacter
  | keyNotString
  | loneSurrogate
  | trailingComma
  | trailingCharacters
  | endOfHexEscape
  | tooDeep
  | wrongType (found : Found) (expected : String)
  | wrongValue (found : Found) (expected : String)
  | duplicateField (name : String)
  | missingField (name : String)
  | wrongLength (length : Nat) (expected : String)
deriving DecidableEq, Repr

def Reason.message : Reason → String
  | .eofInValue => "EOF while parsing a value"
  | .eofInList => "EOF while parsing a list"
  | .eofInObject => "EOF while parsing an object"
  | .eofInString => "EOF while parsing a string"
  | .expectedColon => "expected `:`"
  | .expectedListEnd => "expected `,` or `]`"
  | .expectedObjectEnd => "expected `,` or `\x7d`"
  | .expectedWord => "expected ident"
  | .expectedValue => "expected value"
  | .invalidEscape => "invalid escape"
  | .invalidNumber => "invalid number"
  | .numberOutOfRange => "number out of range"
  | .invalidCodePoint => "invalid unicode code point"
  | .controlCharacter =>
      "control character (\\u0000-\\u001F) found while parsing a string"
  | .keyNotString => "key must be a string"
  | .loneSurrogate => "lone leading surrogate in hex escape"
  | .trailingComma => "trailing comma"
  | .trailingCharacters => "trailing characters"
  | .endOfHexEscape => "unexpected end of hex escape"
  | .tooDeep => "recursion limit exceeded"
  | .wrongType found expected => "invalid type: " ++ found.message ++ ", expected " ++ expected
  | .wrongValue found expected => "invalid value: " ++ found.message ++ ", expected " ++ expected
  | .duplicateField name => "duplicate field `" ++ name ++ "`"
  | .missingField name => "missing field `" ++ name ++ "`"
  | .wrongLength length expected =>
      "invalid length " ++ toString length ++ ", expected " ++ expected

structure Fault where
  reason : Reason
  place : Place
deriving DecidableEq, Repr

def Fault.message (f : Fault) : String :=
  f.reason.message ++ " at line " ++ toString f.place.line ++ " column " ++
    toString f.place.column

/-!
# Cursors

A fault is reported either at the byte read last or at the byte about to be read.
-/

structure Cursor where
  rest : Bytes
  place : Place
deriving DecidableEq, Repr

namespace Cursor

def start (bytes : Bytes) : Cursor :=
  ⟨bytes, ⟨1, 0⟩⟩

def ahead : Cursor → Place
  | ⟨[], p⟩ => p
  | ⟨b :: _, p⟩ => p.after b

def failHere (c : Cursor) (reason : Reason) : Except Fault α :=
  .error ⟨reason, c.place⟩

def failAhead (c : Cursor) (reason : Reason) : Except Fault α :=
  .error ⟨reason, c.ahead⟩

def skip : Cursor → Cursor
  | ⟨[], p⟩ => ⟨[], p⟩
  | ⟨b :: rest, p⟩ => ⟨rest, p.after b⟩

def isBlankByte (b : UInt8) : Bool :=
  b = 0x20 || b = 0x0A || b = 0x09 || b = 0x0D

def skipBlankFrom : Bytes → Place → Cursor
  | [], p => ⟨[], p⟩
  | b :: rest, p => if isBlankByte b then skipBlankFrom rest (p.after b) else ⟨b :: rest, p⟩

def skipBlank (c : Cursor) : Cursor :=
  skipBlankFrom c.rest c.place

/-- Reads the remaining letters of a word such as `null`, whose first letter has been read. -/
def word : Bytes → Cursor → Except Fault Cursor
  | [], c => .ok c
  | letter :: letters, c =>
      match c.rest with
      | [] => c.failHere .eofInValue
      | b :: _ => if b = letter then word letters c.skip else c.skip.failHere .expectedWord

end Cursor

end Json
end CatalogAudit
