import CatalogAudit.Text.Blank
import CatalogAudit.Usage.Event

/-!
# Event filters

A filter is a list of directives with commas between them. A directive names a level, or a part of
the program, or both with an equals sign between them, and shows events up to its level from that
part. The directive for the longest matching part decides. A directive for spans, which stand in
square brackets, shows no event, since events happen outside of spans here.
-/

namespace CatalogAudit
namespace Console

structure Directive where
  /-- The beginning of the parts' names. -/
  target : String
  /-- The rank of the most detailed level that is shown, or zero for none. -/
  maxRank : Nat
deriving DecidableEq, Repr

abbrev EventFilter := List Directive

/-!
# Levels
-/

def levelWords : List (String × Nat) :=
  [("off", 0), ("error", 1), ("warn", 2), ("info", 3), ("debug", 4), ("trace", 5)]

def rankOfDigits? (cs : List Char) : Option Nat :=
  let digits := match cs with
    | '+' :: rest => rest
    | _ => cs
  if digits.isEmpty || !digits.all Char.isDigit then none
  else
    match digits.dropWhile (· = '0') with
    | [] => some 0
    | [d] => if d ≤ '5' then some (d.toNat - '0'.toNat) else none
    | _ => none

/-- Levels are named by a word in any case or by a number. -/
def rank? (cs : List Char) : Option Nat :=
  rankOfDigits? cs <|> levelWords.lookup (String.ofList (Text.lowerAscii cs))

/-!
# Reading
-/

def startsDirective (c : Char) : Bool :=
  c.isAlphanum || c = '-' || c = ':' || c = '_' || 0x80 ≤ c.toNat

/-- The level behind an equals sign, where nothing stands for all levels. -/
def levelAfter? (cs : List Char) : Option Nat :=
  if cs.isEmpty then some Level.trace.rank else rank? cs

/-- Whether a text is the inside and the end of a span, with a level behind it if at all. -/
def isSpanEnd (cs : List Char) : Bool :=
  let name := cs.takeWhile fun c => c ≠ ']' && c ≠ '\x7b'
  let behindSpan : List Char → Bool
    | [] => true
    | '=' :: level => (levelAfter? level).isSome
    | _ => false
  match cs.drop name.length with
  | ']' :: rest => behindSpan rest
  | _ :: fields =>
      let inside := fields.takeWhile (· ≠ '\x7d')
      match fields.drop inside.length with
      | '\x7d' :: ']' :: rest => !inside.isEmpty && behindSpan rest
      | _ => false
  | [] => false

/-- A directive without commas. A span is read as no directive. -/
def directive? (cs : List Char) : Option (List Directive) :=
  let head := cs.takeWhile fun c => c ≠ '=' && c ≠ '['
  if !head.isEmpty && !head.head?.all startsDirective then none
  else
    match cs.drop head.length with
    | [] =>
        if head.isEmpty then none
        else
          match rank? head with
          | some rank => some [⟨"", rank⟩]
          | none => some [⟨String.ofList head, Level.trace.rank⟩]
    | '=' :: level =>
        if head.isEmpty then none
        else (levelAfter? level).map fun rank => [⟨String.ofList head, rank⟩]
    | _ :: span => if isSpanEnd span then some [] else none

/-!
# Filters
-/

namespace EventFilter

def parse? (text : String) : Option EventFilter :=
  let pieces := (Text.splitOn ',' text.toList).filter (!·.isEmpty)
  (pieces.mapM fun piece => directive? (Text.trim piece)).map List.flatten

/-- Without a filter of their own, users see warnings, or the details if they ask for them. -/
def default (isVerbose : Bool) : EventFilter :=
  if isVerbose then [⟨"i18n_validator", Level.debug.rank⟩] else [⟨"", Level.warn.rank⟩]

def choose (text : Option String) (isVerbose : Bool) : EventFilter :=
  (text.bind parse?).getD (default isVerbose)

/-- The directive that decides, the later one of two for the same part. -/
def deciding? (filter : EventFilter) (target : String) : Option Directive :=
  filter.foldl (fun found directive =>
    if directive.target.toList.isPrefixOf target.toList &&
        found.all (fun best : Directive => best.target.length ≤ directive.target.length) then
      some directive
    else found) none

def shows (filter : EventFilter) (event : Event) : Bool :=
  match filter.deciding? event.target with
  | some directive => event.level.rank ≤ directive.maxRank
  | none => false

end EventFilter
end Console
end CatalogAudit
