/-!
# JSON values

Objects keep their members in document order. Numbers keep the digits they were written with, so
far as these matter: a natural number below 2^64, a negative integer not below -2^63, or else a
decimal whose value is only approximated.
-/

namespace CatalogAudit
namespace Json

/-- The number `significand * 10 ^ exponent`, with its sign apart so that zero has one too. -/
structure Decimal where
  negative : Bool
  significand : Nat
  exponent : Int
deriving DecidableEq, Repr

inductive Number where
  | natural (n : Nat)
  | negative (n : Nat)
  | decimal (d : Decimal)
deriving DecidableEq, Repr

end Json

inductive Json where
  | null
  | bool (b : Bool)
  | number (n : Json.Number)
  | string (s : String)
  | array (items : List Json)
  | object (members : List (String × Json))
deriving Inhabited, Repr

namespace Json

/-!
# Members

A member that is given twice keeps the place of the first and the value of the last.
-/

def setMember (name : String) (value : Json) : List (String × Json) → List (String × Json)
  | [] => [(name, value)]
  | (name', value') :: rest =>
      if name' = name then (name, value) :: rest
      else (name', value') :: setMember name value rest

def mergeMembers (members : List (String × Json)) : List (String × Json) :=
  members.foldl (fun merged member => setMember member.1 member.2 merged) []

mutual

def merged : Json → Json
  | .array items => .array (mergedItems items)
  | .object members => .object (mergeMembers (mergedMembers members))
  | .null => .null
  | .bool b => .bool b
  | .number n => .number n
  | .string s => .string s

def mergedItems : List Json → List Json
  | [] => []
  | item :: items => item.merged :: mergedItems items

def mergedMembers : List (String × Json) → List (String × Json)
  | [] => []
  | (name, value) :: members => (name, value.merged) :: mergedMembers members

end

def member? (name : String) : Json → Option Json
  | .object members => members.lookup name
  | _ => none

end Json
end CatalogAudit
