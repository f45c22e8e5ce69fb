import CatalogAudit.Decimal.Binary64

/-!
# Shortest decimals

The decimal with the fewest digits that rounds back to a given binary number, and among those the
nearest one. The text is positional for moderate exponents and scientific beyond.
-/

namespace CatalogAudit

/-- How many decimal digits `n` has; zero has none. -/
def decimalLength (n : Nat) : Nat :=
  if n = 0 then 0 else decimalLength (n / 10) + 1

namespace Binary64

/-!
# The interval of a number

All reals strictly between the midpoints to the neighbours round to the number. The midpoints
themselves do so if the mantissa is even. Quantities are counted in quarters of the last bit.
-/

/-- Below a power of two the neighbours are twice as dense. -/
def lowerGap (x : Binary64) : Nat :=
  if x.mantissa = Nat.pow 2 52 ∧ -1074 < x.exponent then 1 else 2

def roundsTo (x : Binary64) (digits : Nat) (shift : Int) : Bool :=
  let quarter : Binary64 := ⟨1, x.exponent - 2⟩
  let (a, b) := quarter.quotient
  let (p, q) : Nat × Nat := match shift with
    | .ofNat k => (digits * Nat.pow 10 k, 1)
    | .negSucc k => (digits, Nat.pow 10 (k + 1))
  let value := p * b
  let low := (4 * x.mantissa - x.lowerGap) * a * q
  let high := (4 * x.mantissa + 2) * a * q
  if x.mantissa % 2 = 0 then low ≤ value && value ≤ high else low < value && value < high

/-!
# Searching the grids

The grid of `n` digits has two points next to the number. The first grid that has a point in the
interval gives the answer.
-/

/-- The exponent `k` for which the value lies in `10 ^ (k - 1) ≤ value < 10 ^ k`. -/
def pointPosition (x : Binary64) : Int :=
  let (num, den) := x.quotient
  if den ≤ num then (decimalLength (num / den) : Int)
  else 1 - (decimalLength ((den + num - 1) / num - 1) : Int)

def onGrid (x : Binary64) (n : Nat) : Option (Nat × Int) :=
  let (num, den) := x.quotient
  let shift : Int := x.pointPosition - (n : Int)
  let (p, q) : Nat × Nat := match shift with
    | .ofNat k => (num, den * Nat.pow 10 k)
    | .negSucc k => (num * Nat.pow 10 (k + 1), den)
  let below := p / q
  let r := p % q
  let nearer := if 2 * r < q then below
    else if q < 2 * r then below + 1
    else if below % 2 = 0 then below
    else below + 1
  let other := if nearer = below then below + 1 else below
  if x.roundsTo nearer shift then some (nearer, shift)
  else if x.roundsTo other shift then some (other, shift)
  else none

def searchGrids (x : Binary64) : Nat → Nat → Nat × Int
  | n, 0 => (x.onGrid n).getD (x.mantissa, x.exponent)
  | n, fuel + 1 => (x.onGrid n).getD (searchGrids x (n + 1) fuel)

/-- Seventeen digits always suffice. -/
def shortest (x : Binary64) : Nat × Int :=
  searchGrids x 1 16

/-!
# Writing

Trailing zeros never stand in the digits that are found on the first grid. A point in or next to
the digits is written as long as at most sixteen digits stand before it and at most four zeros
after it.
-/

def dropTrailingZeros : Nat → Nat → Int → Nat × Int
  | 0, digits, shift => (digits, shift)
  | fuel + 1, digits, shift =>
      if digits % 10 = 0 ∧ digits ≠ 0 then dropTrailingZeros fuel (digits / 10) (shift + 1)
      else (digits, shift)

def exponentText (e : Int) : String :=
  let digits := toString e.natAbs
  (if e < 0 then "e-" else "e+") ++ (if digits.length < 2 then "0" ++ digits else digits)

def text (x : Binary64) : String :=
  if x.mantissa = 0 then "0.0"
  else
    let (digits, shift) := x.shortest
    let (digits, shift) := dropTrailingZeros 17 digits shift
    let shown := (toString digits).toList
    let point : Int := shown.length + shift
    if 0 ≤ shift ∧ point ≤ 16 then
      String.ofList (shown ++ List.replicate shift.toNat '0') ++ ".0"
    else if 0 < point ∧ point ≤ 16 then
      String.ofList (shown.take point.toNat ++ '.' :: shown.drop point.toNat)
    else if -5 < point ∧ point ≤ 0 then
      "0." ++ String.ofList (List.replicate (-point).toNat '0' ++ shown)
    else
      let mantissa := match shown with
        | [] => []
        | [d] => [d]
        | d :: ds => d :: '.' :: ds
      String.ofList mantissa ++ exponentText (point - 1)

end Binary64
end CatalogAudit
