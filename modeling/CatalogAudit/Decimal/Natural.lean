/-!
# Natural numbers below 2^64

A number is written with at least one decimal digit, after an optional plus sign. Leading zeros do
not matter. The digits are read from the left, and the first that is no digit or does not fit
decides what is wrong.
-/

namespace CatalogAudit
namespace Natural

inductive Fault where
  | empty
  | invalidDigit
  | tooLarge
deriving DecidableEq, Repr

def Fault.message : Fault → String
  | .empty => "cannot parse integer from empty string"
  | .invalidDigit => "invalid digit found in string"
  | .tooLarge => "number too large to fit in target type"

def bound : Nat := Nat.pow 2 64

def digitValue? (c : Char) : Option Nat :=
  if '0' ≤ c ∧ c ≤ '9' then some (c.toNat - '0'.toNat) else none

def parseDigits (value : Nat) : List Char → Except Fault Nat
  | [] => .ok value
  | c :: cs =>
      match digitValue? c with
      | none => .error .invalidDigit
      | some d =>
          if value * 10 + d < bound then parseDigits (value * 10 + d) cs else .error .tooLarge

def parse : List Char → Except Fault Nat
  | [] => .error .empty
  | ['+'] => .error .invalidDigit
  | '+' :: c :: cs => parseDigits 0 (c :: cs)
  | c :: cs => parseDigits 0 (c :: cs)

end Natural
end CatalogAudit
