import CatalogAudit.Decimal.Shortest
import CatalogAudit.Json.Value

/-!
# Approximated decimals

A decimal is approximated by a binary number in two steps: its digits are rounded, and the result
is multiplied or divided by a rounded power of ten. A product beyond the largest binary number is
out of range.
-/

namespace CatalogAudit
namespace Json

def maxPower : Nat := 308

def powerOfTen (k : Nat) : Binary64 :=
  .ofQuotient (Nat.pow 10 k) 1

/-- Divides by the largest power of ten `steps` times, or until nothing is left. -/
def shrink : Nat → Binary64 → Binary64
  | 0, x => x
  | steps + 1, x =>
      if x.mantissa = 0 then x else shrink steps (x.div (powerOfTen maxPower))

namespace Decimal

/-- The approximation without the sign, if it is in range. -/
def magnitude? (d : Decimal) : Option Binary64 :=
  let digits := Binary64.ofQuotient d.significand 1
  match d.exponent with
  | .ofNat k =>
      if digits.mantissa = 0 then some digits
      else if maxPower < k then none
      else
        let product := digits.mul (powerOfTen k)
        if product.isInfinite then none else some product
  | .negSucc k =>
      let power := k + 1
      let steps := (power - 1) / maxPower
      let shrunk := shrink steps digits
      some (shrunk.div (powerOfTen (power - steps * maxPower)))

def inRange (d : Decimal) : Bool :=
  d.magnitude?.isSome

def text (d : Decimal) : String :=
  let sign := if d.negative then "-" else ""
  match d.magnitude? with
  | some x => sign ++ x.text
  | none => sign ++ "inf"

end Decimal
end Json
end CatalogAudit
