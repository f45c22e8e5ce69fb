/-!
# Name patterns

A pattern is a sequence of tokens. A question mark stands for any character, a star for any text,
brackets for one character of a set, and two stars for any number of whole path segments. A faulty
pattern is refused with the position of the fault, counted in characters.
-/

namespace CatalogAudit
namespace Glob

inductive Reason where
  | wildcards
  | recursiveWildcards
  | range
deriving DecidableEq, Repr

def Reason.message : Reason → String
  | .wildcards => "wildcards are either regular `*` or recursive `**`"
  | .recursiveWildcards => "recursive wildcards must form a single path component"
  | .range => "invalid range pattern"

structure Fault where
  position : Nat
  reason : Reason
deriving DecidableEq, Repr

def Fault.message (f : Fault) : String :=
  "Pattern syntax error near position " ++ toString f.position ++ ": " ++ f.reason.message

/-!
# Character sets
-/

inductive CharSpec where
  | single (c : Char)
  | range (low high : Char)
deriving DecidableEq, Repr

def CharSpec.admits (c : Char) : CharSpec → Bool
  | .single c' => c == c'
  | .range low high => low ≤ c && c ≤ high

/-- A minus sign between two characters makes a range. Elsewhere it stands for itself. -/
def charSpecs : List Char → List CharSpec
  | low :: '-' :: high :: cs => .range low high :: charSpecs cs
  | c :: cs => .single c :: charSpecs cs
  | [] => []

/-!
# Tokens
-/

inductive Token where
  | char (c : Char)
  | anyChar
  | anySequence
  | anySegments
  | oneOf (specs : List CharSpec)
  | noneOf (specs : List CharSpec)
deriving DecidableEq, Repr

abbrev Pattern := List Token

def isSeparator (c : Char) : Bool :=
  c == '/'

/--
The set that opens a pattern text after its bracket, and the text behind the closing bracket. The
first character of the set may be a closing bracket itself.
-/
def bracketSet? (cs : List Char) : Option (Token × List Char) :=
  match cs with
  | '!' :: first :: rest =>
      match rest.span (· ≠ ']') with
      | (inner, ']' :: after) => some (.noneOf (charSpecs (first :: inner)), after)
      | _ => none
  | '!' :: [] => none
  | first :: rest =>
      match rest.span (· ≠ ']') with
      | (inner, ']' :: after) => some (.oneOf (charSpecs (first :: inner)), after)
      | _ => none
  | [] => none

/-- Two sequences of whole segments in a row are one, unless they open the pattern. -/
def addSegments (tokens : List Token) : List Token :=
  match tokens with
  | .anySegments :: _ :: _ => tokens
  | _ => .anySegments :: tokens

/--
Reads tokens, `tokens` being those read so far in reverse, `before` the character that stands
before the text and `position` the number of characters before it. The first number limits the
recursion and is at least the length of the text.
-/
def parseFrom : Nat → List Token → Option Char → Nat → List Char → Except Fault Pattern
  | 0, tokens, _, _, _ => .ok tokens.reverse
  | _ + 1, tokens, _, _, [] => .ok tokens.reverse
  | fuel + 1, tokens, before, position, c :: cs =>
      if c = '?' then parseFrom fuel (.anyChar :: tokens) (some c) (position + 1) cs
      else if c = '*' then
        let stars := cs.takeWhile (· == '*')
        let rest := cs.dropWhile (· == '*')
        match stars.length with
        | 0 => parseFrom fuel (.anySequence :: tokens) (some c) (position + 1) rest
        | 1 =>
            if before.all isSeparator then
              match rest with
              | [] => parseFrom fuel (addSegments tokens) (some c) (position + 2) []
              | next :: rest =>
                  if isSeparator next then
                    parseFrom fuel (addSegments tokens) (some next) (position + 3) rest
                  else .error ⟨position + 2, .recursiveWildcards⟩
            else .error ⟨position - 1, .recursiveWildcards⟩
        | _ => .error ⟨position + 2, .wildcards⟩
      else if c = '[' then
        match bracketSet? cs with
        | some (token, after) =>
            parseFrom fuel (token :: tokens) (some ']') (position + 1 + (cs.length - after.length))
              after
        | none => .error ⟨position, .range⟩
      else parseFrom fuel (.char c :: tokens) (some c) (position + 1) cs

def parse (pattern : String) : Except Fault Pattern :=
  parseFrom pattern.toList.length [] none 0 pattern.toList

/-!
# Matching

A pattern matches a text if its tokens can be laid over the whole text.
-/

def anyLater (p : List Char → Bool) : List Char → Bool
  | [] => p []
  | c :: cs => p (c :: cs) || anyLater p cs

def anySegment (p : List Char → Bool) : List Char → Bool
  | [] => p []
  | c :: cs => (isSeparator c && p cs) || anySegment p cs

def matchTokens : Pattern → List Char → Bool
  | [], text => text.isEmpty
  | .anySequence :: tokens, text => anyLater (matchTokens tokens) text
  | .anySegments :: tokens, text => matchTokens tokens text || anySegment (matchTokens tokens) text
  | .char c :: tokens, c' :: text => c == c' && matchTokens tokens text
  | .anyChar :: tokens, _ :: text => matchTokens tokens text
  | .oneOf specs :: tokens, c :: text => specs.any (·.admits c) && matchTokens tokens text
  | .noneOf specs :: tokens, c :: text => !specs.any (·.admits c) && matchTokens tokens text
  | _ :: _, [] => false

def Pattern.admits (pattern : Pattern) (name : String) : Bool :=
  matchTokens pattern name.toList

end Glob
end CatalogAudit
