/-!
# Styled text

A line is made of spans, each with its styles. Styles are shown by the usual escape sequences, or
not at all.
-/

namespace CatalogAudit
namespace Console

inductive Style where
  | bold
  | dimmed
  | red
  | green
  | yellow
  | cyan
deriving DecidableEq, Repr

def Style.code : Style → String
  | .bold => "1"
  | .dimmed => "2"
  | .red => "31"
  | .green => "32"
  | .yellow => "33"
  | .cyan => "36"

structure Span where
  styles : List Style
  text : String
deriving DecidableEq, Repr

abbrev Line := List Span

def plain (text : String) : Span :=
  ⟨[], text⟩

def styled (styles : List Style) (text : String) : Span :=
  ⟨styles, text⟩

/-!
# Rendering
-/

def resetSequence : List Char :=
  ['\x1b', '[', '0', 'm']

def styleSequence (styles : List Style) : List Char :=
  ['\x1b', '['] ++ (";".intercalate (styles.map (·.code))).toList ++ ['m']

/-- After each place where a text resets the styles they are set again. -/
def resume (start : List Char) : List Char → List Char
  | '\x1b' :: '[' :: '0' :: 'm' :: cs => resetSequence ++ start ++ resume start cs
  | c :: cs => c :: resume start cs
  | [] => []

def Span.render (colored : Bool) (span : Span) : String :=
  if !colored || span.styles.isEmpty then span.text
  else
    let start := styleSequence span.styles
    String.ofList (start ++ resume start span.text.toList ++ resetSequence)

def renderLine (colored : Bool) (line : Line) : String :=
  String.join (line.map (·.render colored)) ++ "\n"

def renderLines (colored : Bool) (lines : List Line) : String :=
  String.join (lines.map (renderLine colored))

end Console
end CatalogAudit
