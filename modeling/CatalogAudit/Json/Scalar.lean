import CatalogAudit.Json.Cursor

/-!
# Numbers and strings

Numbers are read digit by digit. As long as the digits fit into 64 bits they are kept exactly, and
the digits that do not fit only move the decimal point. Strings are read up to the closing quote
and their bytes have to be UTF-8 after the escapes have been resolved.
-/

namespace CatalogAudit
namespace Json

open Utf8 (Bytes)

/-!
# Digits
-/

def digit? (b : UInt8) : Option Nat :=
  if 0x30 ≤ b ∧ b ≤ 0x39 then some (b.toNat - 0x30) else none

def natBound : Nat := Nat.pow 2 64

/-- The significand so far, and how many further digits have been read without fitting in. -/
structure Significand where
  value : Nat
  dropped : Nat
deriving DecidableEq, Repr

def Significand.push (s : Significand) (d : Nat) : Significand :=
  if s.dropped = 0 ∧ s.value * 10 + d < natBound then ⟨s.value * 10 + d, 0⟩
  else ⟨s.value, s.dropped + 1⟩

def integerDigits (s : Significand) : Bytes → Place → Significand × Cursor
  | [], p => (s, ⟨[], p⟩)
  | b :: rest, p =>
      match digit? b with
      | some d => integerDigits (s.push d) rest (p.after b)
      | none => (s, ⟨b :: rest, p⟩)

/-- Reads over digits that carry no information any more. -/
def skipDigits : Bytes → Place → Cursor
  | [], p => ⟨[], p⟩
  | b :: rest, p => if (digit? b).isSome then skipDigits rest (p.after b) else ⟨b :: rest, p⟩

/-- The digits after the point, until one does not fit. The second result counts those that did. -/
def fractionDigits (value taken : Nat) : Bytes → Place → Nat × Nat × Cursor
  | [], p => (value, taken, ⟨[], p⟩)
  | b :: rest, p =>
      match digit? b with
      | some d =>
          if value * 10 + d < natBound then
            fractionDigits (value * 10 + d) (taken + 1) rest (p.after b)
          else (value, taken, skipDigits (b :: rest) p)
      | none => (value, taken, ⟨b :: rest, p⟩)

/-- Exponents are counted up to the largest signed number of 32 bits. -/
def exponentBound : Nat := Nat.pow 2 31

def exponentDigits (e : Nat) : Bytes → Place → Option Nat × Cursor
  | [], p => (some e, ⟨[], p⟩)
  | b :: rest, p =>
      match digit? b with
      | some d =>
          if e * 10 + d < exponentBound then exponentDigits (e * 10 + d) rest (p.after b)
          else (none, ⟨rest, p.after b⟩)
      | none => (some e, ⟨b :: rest, p⟩)

/-!
# Numbers
-/

def finishDecimal (d : Decimal) (c : Cursor) : Except Fault (Number × Cursor) :=
  if d.inRange then .ok (.decimal d, c) else c.failHere .numberOutOfRange

def readExponent (negative : Bool) (significand : Nat) (shift : Int) (c : Cursor) :
    Except Fault (Number × Cursor) :=
  let c := c.skip
  let (down, c) := match c.rest with
    | 0x2B :: _ => (false, c.skip)
    | 0x2D :: _ => (true, c.skip)
    | _ => (false, c)
  match c.rest with
  | [] => c.failHere .eofInValue
  | b :: rest =>
      match digit? b with
      | none => c.skip.failHere .invalidNumber
      | some d =>
          match exponentDigits d rest (c.place.after b) with
          | (some e, c) =>
              finishDecimal ⟨negative, significand, if down then shift - e else shift + e⟩ c
          | (none, c) =>
              if significand ≠ 0 ∧ !down then c.failHere .numberOutOfRange
              else .ok (.decimal ⟨negative, 0, 0⟩, skipDigits c.rest c.place)

def atExponent (c : Cursor) : Bool :=
  match c.rest with
  | b :: _ => b = 0x65 || b = 0x45
  | [] => false

def readFraction (negative : Bool) (s : Significand) (c : Cursor) :
    Except Fault (Number × Cursor) :=
  let c := c.skip
  match c.rest with
  | [] => c.failAhead .eofInValue
  | b :: _ =>
      if (digit? b).isNone then c.failAhead .invalidNumber
      else
        let (significand, taken, c) := fractionDigits s.value 0 c.rest c.place
        let shift : Int := s.dropped - taken
        if atExponent c then readExponent negative significand shift c
        else finishDecimal ⟨negative, significand, shift⟩ c

def integerNumber (negative : Bool) (n : Nat) : Number :=
  if negative then
    if n = 0 ∨ Nat.pow 2 63 < n then .decimal ⟨true, n, 0⟩ else .negative n
  else .natural n

def readAfterInteger (negative : Bool) (s : Significand) (c : Cursor) :
    Except Fault (Number × Cursor) :=
  match c.rest with
  | 0x2E :: _ => readFraction negative s c
  | _ =>
      if atExponent c then readExponent negative s.value s.dropped c
      else if s.dropped = 0 then .ok (integerNumber negative s.value, c)
      else finishDecimal ⟨negative, s.value, s.dropped⟩ c

/-- Reads a number whose sign, if any, has been read. Zero is followed by no other digit. -/
def readNumber (negative : Bool) (c : Cursor) : Except Fault (Number × Cursor) :=
  match c.rest with
  | [] => c.failHere .eofInValue
  | b :: rest =>
      match digit? b with
      | none => c.skip.failHere .invalidNumber
      | some 0 =>
          let c := c.skip
          match c.rest with
          | b' :: _ =>
              if (digit? b').isSome then c.failAhead .invalidNumber
              else readAfterInteger negative ⟨0, 0⟩ c
          | [] => readAfterInteger negative ⟨0, 0⟩ c
      | some d =>
          let (s, c) := integerDigits ⟨d, 0⟩ rest (c.place.after b)
          readAfterInteger negative s c

/-!
# Escapes

An escaped character outside the basic plane is spelled as two surrogates, one after the other.
-/

def hexValue? (b : UInt8) : Option Nat :=
  if 0x30 ≤ b ∧ b ≤ 0x39 then some (b.toNat - 0x30)
  else if 0x41 ≤ b ∧ b ≤ 0x46 then some (b.toNat - 0x41 + 10)
  else if 0x61 ≤ b ∧ b ≤ 0x66 then some (b.toNat - 0x61 + 10)
  else none

def placeAfter (p : Place) (bytes : Bytes) : Place :=
  bytes.foldl Place.after p

/-- Four hexadecimal digits. They are read together, so that a fault lies behind all four. -/
def readHex (c : Cursor) : Except Fault (Nat × Cursor) :=
  match c.rest with
  | a :: b :: d :: e :: rest =>
      let c' : Cursor := ⟨rest, placeAfter c.place [a, b, d, e]⟩
      match hexValue? a, hexValue? b, hexValue? d, hexValue? e with
      | some a, some b, some d, some e => .ok (((a * 16 + b) * 16 + d) * 16 + e, c')
      | _, _, _, _ => c'.failHere .invalidEscape
  | rest => Cursor.failHere ⟨[], placeAfter c.place rest⟩ .eofInString

def shortEscape? (b : UInt8) : Option UInt8 :=
  if b = 0x22 then some 0x22
  else if b = 0x5C then some 0x5C
  else if b = 0x2F then some 0x2F
  else if b = 0x62 then some 0x08
  else if b = 0x66 then some 0x0C
  else if b = 0x6E then some 0x0A
  else if b = 0x72 then some 0x0D
  else if b = 0x74 then some 0x09
  else none

def expectSurrogateByte (expected : UInt8) (c : Cursor) : Except Fault Cursor :=
  match c.rest with
  | [] => c.failHere .eofInString
  | b :: _ => if b = expected then .ok c.skip else c.skip.failHere .endOfHexEscape

def readSecondSurrogate (first : Nat) (c : Cursor) : Except Fault (Bytes × Cursor) :=
  match expectSurrogateByte 0x5C c with
  | .error fault => .error fault
  | .ok c =>
      match expectSurrogateByte 0x75 c with
      | .error fault => .error fault
      | .ok c =>
          match readHex c with
          | .error fault => .error fault
          | .ok (second, c) =>
              if 0xDC00 ≤ second ∧ second ≤ 0xDFFF then
                let n := (first - 0xD800) * 0x400 + (second - 0xDC00) + 0x10000
                .ok (String.utf8EncodeChar (Char.ofNat n), c)
              else c.failHere .loneSurrogate

def readEscape (c : Cursor) : Except Fault (Bytes × Cursor) :=
  match c.rest with
  | [] => c.failHere .eofInString
  | b :: _ =>
      let c := c.skip
      match shortEscape? b with
      | some byte => .ok ([byte], c)
      | none =>
          if b = 0x75 then
            match readHex c with
            | .error fault => .error fault
            | .ok (n, c) =>
                if 0xDC00 ≤ n ∧ n ≤ 0xDFFF then c.failHere .loneSurrogate
                else if 0xD800 ≤ n ∧ n ≤ 0xDBFF then readSecondSurrogate n c
                else .ok (String.utf8EncodeChar (Char.ofNat n), c)
          else c.failHere .invalidEscape

/-!
# Strings

The number that limits the recursion is at least the number of bytes left to read.
-/

/-- The bytes of a string up to its closing quote, added to `seen` in reverse. -/
def readStringBytes : Nat → Bytes → Cursor → Except Fault (Bytes × Cursor)
  | 0, _, c => c.failHere .eofInString
  | fuel + 1, seen, c =>
      match c.rest with
      | [] => c.failHere .eofInString
      | b :: _ =>
          let c := c.skip
          if b = 0x22 then .ok (seen.reverse, c)
          else if b = 0x5C then
            match readEscape c with
            | .error fault => .error fault
            | .ok (bytes, c) => readStringBytes fuel (bytes.reverse ++ seen) c
          else if b < 0x20 then c.failHere .controlCharacter
          else readStringBytes fuel (b :: seen) c

def readString (c : Cursor) : Except Fault (String × Cursor) :=
  match readStringBytes (c.rest.length + 1) [] c with
  | .error fault => .error fault
  | .ok (bytes, c) =>
      match textOf? bytes with
      | some s => .ok (s, c)
      | none => c.failHere .invalidCodePoint

end Json
end CatalogAudit
