import CatalogAudit.Yaml.Implicit

/-!
# Scalars

A text is written in the plainest of four styles that gives it back when it is read. Texts with line
feeds are written as literal blocks where that is possible. Other texts stand without quotes, in
single quotes, or, if they hold characters that have to be escaped, in double quotes.
-/

namespace CatalogAudit
namespace Yaml

/-!
# Characters
-/

def isBreak (c : Char) : Bool :=
  c = '\n' || c = '\r' || c = '\u0085' || c = '\u2028' || c = '\u2029'

def isPrintable (c : Char) : Bool :=
  let n := c.toNat
  c = '\n' || (0x20 ≤ n && n ≤ 0x7E) || (0xA0 ≤ n && n ≤ 0xFFFD && n ≠ 0xFEFF) || 0x10000 ≤ n

/-- Characters that separate the parts of a line. The end of a text counts as such. -/
def isSeparator (c : Char) : Bool :=
  c = ' ' || c = '\t' || c = '\x00' || isBreak c

def separatedBefore (cs : List Char) : Bool :=
  cs.head?.all isSeparator

/-- Characters with a meaning of their own at the start of a text. -/
def startIndicators : List Char :=
  ['#', ',', '[', ']', '\x7b', '\x7d', '&', '*', '!', '|', '>', '\'', '"', '%', '@', '`']

def edgeBlank (c : Char) : Bool :=
  c = ' ' || isBreak c

/-!
# Traits of a text
-/

/-- Whether a character of the first kind is followed at once by one of the second kind. -/
def hasPair (p q : Char → Bool) : List Char → Bool
  | c :: d :: cs => p c && q d || hasPair p q (d :: cs)
  | _ => false

/-- Whether a colon ends a word, as it does behind the name of a field. -/
def hasFieldMark : List Char → Bool
  | [] => false
  | c :: cs => c = ':' && separatedBefore cs || hasFieldMark cs

def isMarker (cs : List Char) : Bool :=
  ['-', '-', '-'].isPrefixOf cs || ['.', '.', '.'].isPrefixOf cs

def startsLikeConstruct : List Char → Bool
  | [] => false
  | c :: cs => startIndicators.contains c || (c = '-' || c = '?') && separatedBefore cs

/-- Whether something in the text would be taken for a construct. -/
def hasIndicator (cs : List Char) : Bool :=
  isMarker cs || startsLikeConstruct cs || hasFieldMark cs || hasPair isSeparator (· = '#') cs

def allowsPlain (cs : List Char) : Bool :=
  cs.all (fun c => isPrintable c && !isBreak c) && cs.head? ≠ some ' ' &&
    cs.getLast? ≠ some ' ' && !hasIndicator cs && readsAsText cs

def allowsSingleQuoted (cs : List Char) : Bool :=
  cs.all isPrintable && !hasPair isBreak (· = ' ') cs && !hasPair (· = ' ') isBreak cs

def allowsLiteral (cs : List Char) : Bool :=
  cs.all isPrintable && cs.getLast? ≠ some ' ' && !hasPair (· = ' ') isBreak cs

/-!
# Styles
-/

inductive Style where
  | plain
  | singleQuoted
  | doubleQuoted
  | literal
deriving DecidableEq, Repr

def styleOf (cs : List Char) : Style :=
  if cs.contains '\n' then
    if allowsLiteral cs then .literal else .doubleQuoted
  else if allowsPlain cs then .plain
  else if allowsSingleQuoted cs then .singleQuoted
  else .doubleQuoted

/-!
# Writing

Where a text goes on in a new line, the line is indented. The first argument is the indentation.
-/

def indentation (indent : Nat) : List Char :=
  List.replicate indent ' '

/--
The inside of single quotes, and the closing quote. The flag tells that a break has just been
written.
-/
def singleQuotedRest (indent : Nat) (fresh : Bool) : List Char → List Char
  | [] => (if fresh then indentation indent else []) ++ ['\'']
  | c :: cs =>
      if isBreak c then c :: singleQuotedRest indent true cs
      else
        (if fresh then indentation indent else []) ++ (if c = '\'' then ['\'', '\''] else [c]) ++
          singleQuotedRest indent false cs

def upperHexDigit (n : Nat) : Char :=
  if n < 10 then Char.ofNat ('0'.toNat + n) else Char.ofNat ('A'.toNat + (n - 10))

/-- The last `width` digits of `n` in base 16. -/
def hexDigits : Nat → Nat → List Char
  | 0, _ => []
  | width + 1, n => hexDigits width (n / 16) ++ [upperHexDigit (n % 16)]

def shortEscape? (c : Char) : Option Char :=
  match c with
  | '\x00' => some '0'
  | '\x07' => some 'a'
  | '\x08' => some 'b'
  | '\t' => some 't'
  | '\n' => some 'n'
  | '\x0b' => some 'v'
  | '\x0c' => some 'f'
  | '\r' => some 'r'
  | '\x1b' => some 'e'
  | '"' => some '"'
  | '\\' => some '\\'
  | '\u0085' => some 'N'
  | '\u2028' => some 'L'
  | '\u2029' => some 'P'
  | _ => none

def escape (c : Char) : List Char :=
  match shortEscape? c with
  | some letter => ['\\', letter]
  | none =>
      let n := c.toNat
      if n ≤ 0xFF then '\\' :: 'x' :: hexDigits 2 n
      else if n ≤ 0xFFFF then '\\' :: 'u' :: hexDigits 4 n
      else '\\' :: 'U' :: hexDigits 8 n

def doubleQuotedChar (c : Char) : List Char :=
  if isPrintable c && !isBreak c && c ≠ '"' && c ≠ '\\' then [c] else escape c

/-- The lines of a literal block. The flag tells that a break has just been written. -/
def literalRest (indent : Nat) (fresh : Bool) : List Char → List Char
  | [] => []
  | c :: cs =>
      if isBreak c then c :: literalRest indent true cs
      else (if fresh then indentation indent else []) ++ c :: literalRest indent false cs

def indentStep : Nat := 2

def indentHint (cs : List Char) : List Char :=
  if cs.head?.any edgeBlank then (toString indentStep).toList else []

/-- What becomes of the breaks at the end: none are there, one is kept, or all are kept. -/
def chompHint (cs : List Char) : List Char :=
  match cs.reverse with
  | [] => ['-']
  | [c] => if isBreak c then ['+'] else ['-']
  | c :: d :: _ => if !isBreak c then ['-'] else if isBreak d then ['+'] else []

def scalar (indent : Nat) (cs : List Char) : List Char :=
  match styleOf cs with
  | .plain => cs
  | .singleQuoted => '\'' :: singleQuotedRest indent false cs
  | .doubleQuoted => '"' :: cs.flatMap doubleQuotedChar ++ ['"']
  | .literal => '|' :: indentHint cs ++ chompHint cs ++ '\n' :: literalRest indent true cs

end Yaml
end CatalogAudit
