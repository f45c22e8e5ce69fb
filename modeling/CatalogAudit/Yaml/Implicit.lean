import CatalogAudit.Decimal.Binary64

/-!
# Implicit types

A text without quotes may be read as something else than a text: as nothing, as a truth value, or
as a number. Texts of digits with a zero in front are read differently by different readers. A text
of any of these kinds needs quotes to be read as a text.
-/

namespace CatalogAudit
namespace Yaml

/-!
# Words
-/

def nullWords : List String :=
  ["", "~", "null", "Null", "NULL"]

def booleanWords : List String :=
  ["true", "True", "TRUE", "false", "False", "FALSE"]

def infinityWords : List String :=
  [".inf", ".Inf", ".INF"]

def notANumberWords : List String :=
  [".nan", ".NaN", ".NAN"]

/-!
# Digits
-/

def isDigit (c : Char) : Bool :=
  '0' ≤ c && c ≤ '9'

def digitValue? (c : Char) : Option Nat :=
  if '0' ≤ c ∧ c ≤ '9' then some (c.toNat - '0'.toNat)
  else if 'a' ≤ c ∧ c ≤ 'f' then some (c.toNat - 'a'.toNat + 10)
  else if 'A' ≤ c ∧ c ≤ 'F' then some (c.toNat - 'A'.toNat + 10)
  else none

def digitsFrom? (base value : Nat) : List Char → Option Nat
  | [] => some value
  | c :: cs =>
      match digitValue? c with
      | some d => if d < base then digitsFrom? base (value * base + d) cs else none
      | none => none

def digits? (base : Nat) : List Char → Option Nat
  | [] => none
  | c :: cs => digitsFrom? base 0 (c :: cs)

/-- Whether there is a minus sign in front, and the text behind a sign of either kind. -/
def splitSign : List Char → Bool × List Char
  | '-' :: cs => (true, cs)
  | '+' :: cs => (false, cs)
  | cs => (false, cs)

/-!
# Integers with a mark for the base

Their readers keep them in 128 bits, and a number that does not fit is read as a text.
-/

def baseOf? (mark : Char) : Option Nat :=
  if mark = 'x' then some 16
  else if mark = 'o' then some 8
  else if mark = 'b' then some 2
  else none

def fitsWord (negative : Bool) (n : Nat) : Bool :=
  if negative then n ≤ Nat.pow 2 127 else n < Nat.pow 2 128

def isMarkedInteger (cs : List Char) : Bool :=
  match splitSign cs with
  | (negative, '0' :: mark :: ds) =>
      match (baseOf? mark).bind (digits? · ds) with
      | some n => fitsWord negative n
      | none => false
  | _ => false

/-!
# Decimal numbers

A decimal number is read as such if the nearest binary number is finite. The value is compared with
powers of ten first, so that the numbers to be computed stay about as long as the text.
-/

/-- A decimal number without its sign: the value of the digits, times a power of ten. -/
structure DecimalText where
  digits : List Char
  exponent : Int
deriving DecidableEq, Repr

def exponent? : List Char → Option Int
  | [] => some 0
  | c :: cs =>
      if c = 'e' ∨ c = 'E' then
        match splitSign cs with
        | (negative, ds) => (digits? 10 ds).map fun n => if negative then -(n : Int) else n
      else none

def decimal? (cs : List Char) : Option DecimalText :=
  let whole := cs.takeWhile isDigit
  let rest := cs.dropWhile isDigit
  let (fraction, rest) :=
    match rest with
    | '.' :: cs => (cs.takeWhile isDigit, cs.dropWhile isDigit)
    | _ => ([], rest)
  if whole.isEmpty && fraction.isEmpty then none
  else (exponent? rest).map fun e => ⟨whole ++ fraction, e - fraction.length⟩

namespace DecimalText

/-- The number of digits in front of the point, leading zeros not counted. -/
def size (d : DecimalText) : Int :=
  (d.digits.dropWhile (· = '0')).length + d.exponent

def nearest (d : DecimalText) : Binary64 :=
  let n := (digits? 10 d.digits).getD 0
  match d.exponent with
  | .ofNat k => .ofQuotient (n * Nat.pow 10 k) 1
  | .negSucc k => .ofQuotient n (Nat.pow 10 (k + 1))

/-- All numbers with as many digits before the point are finite. -/
def finiteSize : Int := 308

def isFinite (d : DecimalText) : Bool :=
  d.digits.all (· = '0') || d.size ≤ finiteSize ||
    (d.size = finiteSize + 1 && !d.nearest.isInfinite)

end DecimalText

def isFiniteDecimal (cs : List Char) : Bool :=
  match decimal? (splitSign cs).2 with
  | some d => d.isFinite
  | none => false

def isFloat (cs : List Char) : Bool :=
  infinityWords.contains (String.ofList (splitSign cs).2) ||
    notANumberWords.contains (String.ofList cs) || isFiniteDecimal cs

/-- Digits with a zero in front, which are a number for some readers and a text for others. -/
def isZeroPadded (cs : List Char) : Bool :=
  match (splitSign cs).2 with
  | '0' :: c :: rest => (c :: rest).all isDigit
  | _ => false

/-- Whether a text is read as a text when it has no quotes. -/
def readsAsText (cs : List Char) : Bool :=
  let word := String.ofList cs
  !(nullWords.contains word || booleanWords.contains word || isMarkedInteger cs || isFloat cs ||
    isZeroPadded cs)

end Yaml
end CatalogAudit
