/-!
# UTF-8

Byte sequences are cut into pieces: a well-formed character, or a longest run of bytes that begins
a character without completing it. Strict decoding refuses a sequence with such a run, lossy
decoding shows one replacement character for each of them. The pieces spell the input, so nothing
is lost between the bytes and the cut.
-/

namespace CatalogAudit
namespace Utf8

abbrev Bytes := List UInt8

inductive Piece where
  | char (c : Char)
  | illFormed (bytes : Bytes)
deriving DecidableEq, Repr

/-!
# Reading byte by byte

Between two bytes the reader is idle or inside a character. Inside a character it remembers the
bytes seen, the value of their payload bits, how many bytes are still owed, and which values the
next byte may take. The narrowed ranges after some lead bytes exclude overlong spellings,
surrogates, and values above U+10FFFF.
-/

inductive Reading where
  | idle
  | inside (seen : Bytes) (value owed : Nat) (low high : UInt8)
deriving DecidableEq, Repr

/-- The first byte of a character, or a byte that begins none. -/
def Reading.start (b : UInt8) : List Piece × Reading :=
  if b < 0x80 then ([.char (Char.ofNat b.toNat)], .idle)
  else if b < 0xC2 then ([.illFormed [b]], .idle)
  else if b < 0xE0 then ([], .inside [b] (b.toNat - 0xC0) 1 0x80 0xBF)
  else if b = 0xE0 then ([], .inside [b] 0 2 0xA0 0xBF)
  else if b = 0xED then ([], .inside [b] 0xD 2 0x80 0x9F)
  else if b < 0xF0 then ([], .inside [b] (b.toNat - 0xE0) 2 0x80 0xBF)
  else if b = 0xF0 then ([], .inside [b] 0 3 0x90 0xBF)
  else if b < 0xF4 then ([], .inside [b] (b.toNat - 0xF0) 3 0x80 0xBF)
  else if b = 0xF4 then ([], .inside [b] 4 3 0x80 0x8F)
  else ([.illFormed [b]], .idle)

/-- A byte that cannot continue the character ends an ill-formed run and is read afresh. -/
def Reading.step : Reading → UInt8 → List Piece × Reading
  | .idle, b => Reading.start b
  | .inside seen value owed low high, b =>
      if low ≤ b ∧ b ≤ high then
        let value' := value * 0x40 + (b.toNat - 0x80)
        if owed ≤ 1 then ([.char (Char.ofNat value')], .idle)
        else ([], .inside (seen ++ [b]) value' (owed - 1) 0x80 0xBF)
      else
        let (found, reading) := Reading.start b
        (.illFormed seen :: found, reading)

def piecesFrom : Reading → Bytes → List Piece
  | .idle, [] => []
  | .inside seen .., [] => [.illFormed seen]
  | reading, b :: rest =>
      let (found, reading') := reading.step b
      found ++ piecesFrom reading' rest

def pieces (bytes : Bytes) : List Piece :=
  piecesFrom .idle bytes

/-!
# Encoding and decoding

A character that stands in for an ill-formed run is U+FFFD.
-/

def encode (cs : List Char) : Bytes :=
  cs.flatMap String.utf8EncodeChar

def replacement : Char :=
  '\uFFFD'

def Piece.bytes : Piece → Bytes
  | .char c => String.utf8EncodeChar c
  | .illFormed bytes => bytes

def Piece.char? : Piece → Option Char
  | .char c => some c
  | .illFormed _ => none

def Piece.shown : Piece → Char
  | .char c => c
  | .illFormed _ => replacement

def decode? (bytes : Bytes) : Option (List Char) :=
  (pieces bytes).mapM Piece.char?

def decodeLossy (bytes : Bytes) : List Char :=
  (pieces bytes).map Piece.shown

end Utf8

def bytesOf (s : String) : Utf8.Bytes :=
  Utf8.encode s.toList

/-- The text that the bytes spell, if they are UTF-8. -/
def textOf? (bytes : Utf8.Bytes) : Option String :=
  (Utf8.decode? bytes).map String.ofList

/-- The text that the bytes spell, with replacement characters for what is not UTF-8. -/
def lossyTextOf (bytes : Utf8.Bytes) : String :=
  String.ofList (Utf8.decodeLossy bytes)

end CatalogAudit
