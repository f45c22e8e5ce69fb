/-!
# Rounding to 53 bits

A positive binary number with a mantissa of at most 53 bits, as stored in eight bytes. Quotients
of natural numbers are rounded to the nearest such number, and a tie goes to the even mantissa.
-/

namespace CatalogAudit

/-- The value `mantissa * 2 ^ exponent`. -/
structure Binary64 where
  mantissa : Nat
  exponent : Int
deriving DecidableEq, Repr

namespace Binary64

def zero : Binary64 :=
  ⟨0, -1074⟩

/-- The nearest integer to a quotient, the even one of two that are equally near. -/
def roundQuotient (num den : Nat) : Nat :=
  let q := num / den
  let r := num % den
  if 2 * r < den then q
  else if den < 2 * r then q + 1
  else if q % 2 = 0 then q
  else q + 1

def scaledQuotient (num den : Nat) (e : Int) : Nat :=
  match e with
  | .ofNat k => roundQuotient num (den * Nat.pow 2 k)
  | .negSucc k => roundQuotient (num * Nat.pow 2 (k + 1)) den

/--
The nearest number to `num / den`. The exponent is chosen so that the mantissa has 53 bits, or is
the least exponent that can be stored.
-/
def ofQuotient (num den : Nat) : Binary64 :=
  if num = 0 then zero
  else
    let guess : Int := (num.log2 : Int) - (den.log2 : Int) - 52
    let fits (e : Int) : Bool := scaledQuotient num den e < Nat.pow 2 53
    let e := if fits (guess - 1) then guess - 1 else if fits guess then guess else guess + 1
    let e := max e (-1074)
    ⟨scaledQuotient num den e, e⟩

def quotient (x : Binary64) : Nat × Nat :=
  match x.exponent with
  | .ofNat k => (x.mantissa * Nat.pow 2 k, 1)
  | .negSucc k => (x.mantissa, Nat.pow 2 (k + 1))

def mul (x y : Binary64) : Binary64 :=
  let (a, b) := x.quotient
  let (c, d) := y.quotient
  ofQuotient (a * c) (b * d)

def div (x y : Binary64) : Binary64 :=
  let (a, b) := x.quotient
  let (c, d) := y.quotient
  ofQuotient (a * d) (b * c)

/-- Whether the value, as rounded, is beyond the largest number that can be stored. -/
def isInfinite (x : Binary64) : Bool :=
  Nat.pow 2 1024 ≤ x.quotient.1

end Binary64
end CatalogAudit
