import CatalogAudit.Fault
import CatalogAudit.Text.Blank

/-!
# How deep to look

The number of passes over the sources is bounded by a natural number or not at all. The bound is
written as a number or as one of three words for no bound, in any case, with blanks around it.
-/

namespace CatalogAudit

inductive DepthBound where
  | unbounded
  | bounded (n : Nat)
deriving DecidableEq, Repr

namespace DepthBound

def admits : DepthBound → Nat → Bool
  | .unbounded, _ => true
  | .bounded n, depth => depth < n

def unboundedWords : List String :=
  ["full", "none", "unbounded"]

def parse (text : String) : Except Fault DepthBound :=
  let word := Text.lowerAscii (Text.trim text.toList)
  if unboundedWords.contains (String.ofList word) then .ok .unbounded
  else
    match Natural.parse word with
    | .ok n => .ok (.bounded n)
    | .error fault => .error ⟨[.depth text], .number fault⟩

/-!
# Choosing the bound
-/

/-- The bound where the given text is none. -/
def fallback : Nat := 2

/-- A given text comes first, then the settings. The fault tells that the text could not be read. -/
def choose (given : Option String) (configured : Option Nat) : DepthBound × Option Fault :=
  match given, configured with
  | some text, _ =>
      match parse text with
      | .ok depth => (depth, none)
      | .error fault => (.bounded fallback, some fault)
  | none, some n => (.bounded n, none)
  | none, none => (.unbounded, none)

end DepthBound
end CatalogAudit
