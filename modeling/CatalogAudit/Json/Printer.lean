import CatalogAudit.Json.Approximation
import CatalogAudit.Text.Quoted

/-!
# Printing

The compact form has no blanks at all. The indented form puts every item and every member on a
line of its own, two more blanks to the right for each level, and leaves empty brackets closed.
-/

namespace CatalogAudit
namespace Json

/-!
# Scalars

Only quotes, backslashes, and control characters are escaped. Everything else stands for itself.
-/

def escapedChar (c : Char) : List Char :=
  if c = '"' then ['\\', '"']
  else if c = '\\' then ['\\', '\\']
  else if c = '\x08' then ['\\', 'b']
  else if c = '\x0c' then ['\\', 'f']
  else if c = '\n' then ['\\', 'n']
  else if c = '\r' then ['\\', 'r']
  else if c = '\t' then ['\\', 't']
  else if c.toNat < 0x20 then
    ['\\', 'u', '0', '0', Text.hexDigit (c.toNat / 16), Text.hexDigit (c.toNat % 16)]
  else [c]

def stringChars (s : String) : List Char :=
  '"' :: s.toList.flatMap escapedChar ++ ['"']

def numberChars : Number → List Char
  | .natural n => (toString n).toList
  | .negative n => '-' :: (toString n).toList
  | .decimal d => d.text.toList

def boolChars (b : Bool) : List Char :=
  if b then ['t', 'r', 'u', 'e'] else ['f', 'a', 'l', 's', 'e']

def nullChars : List Char :=
  ['n', 'u', 'l', 'l']

/-!
# The compact form
-/

mutual

def compactChars : Json → List Char
  | .null => nullChars
  | .bool b => boolChars b
  | .number n => numberChars n
  | .string s => stringChars s
  | .array items => '[' :: compactItems items ++ [']']
  | .object members => '\x7b' :: compactMembers members ++ ['\x7d']

def compactItems : List Json → List Char
  | [] => []
  | [item] => compactChars item
  | item :: item' :: items => compactChars item ++ ',' :: compactItems (item' :: items)

def compactMembers : List (String × Json) → List Char
  | [] => []
  | [(name, value)] => stringChars name ++ ':' :: compactChars value
  | (name, value) :: member :: members =>
      stringChars name ++ ':' :: compactChars value ++ ',' :: compactMembers (member :: members)

end

def compact (value : Json) : String :=
  String.ofList (compactChars value)

/-!
# The indented form
-/

def lineBreak (level : Nat) : List Char :=
  '\n' :: List.replicate (2 * level) ' '

mutual

def indentedChars (level : Nat) : Json → List Char
  | .null => nullChars
  | .bool b => boolChars b
  | .number n => numberChars n
  | .string s => stringChars s
  | .array [] => ['[', ']']
  | .array (item :: items) =>
      '[' :: indentedItems (level + 1) (item :: items) ++ lineBreak level ++ [']']
  | .object [] => ['\x7b', '\x7d']
  | .object (member :: members) =>
      '\x7b' :: indentedMembers (level + 1) (member :: members) ++ lineBreak level ++ ['\x7d']

def indentedItems (level : Nat) : List Json → List Char
  | [] => []
  | [item] => lineBreak level ++ indentedChars level item
  | item :: item' :: items =>
      lineBreak level ++ indentedChars level item ++ ',' :: indentedItems level (item' :: items)

def indentedMembers (level : Nat) : List (String × Json) → List Char
  | [] => []
  | [(name, value)] =>
      lineBreak level ++ stringChars name ++ ':' :: ' ' :: indentedChars level value
  | (name, value) :: member :: members =>
      lineBreak level ++ stringChars name ++ ':' :: ' ' :: indentedChars level value ++
        ',' :: indentedMembers level (member :: members)

end

def indented (value : Json) : String :=
  String.ofList (indentedChars 0 value)

end Json
end CatalogAudit
