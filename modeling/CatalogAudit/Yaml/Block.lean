import CatalogAudit.Yaml.Scalar

/-!
# Blocks

A document is a tree of texts, numbers, lists, and records. It is written in block style, one
scalar after its name or its dash, nested records indented, and lists in the column of the name
that they belong to.
-/

namespace CatalogAudit
namespace Yaml

inductive Block where
  | text (s : String)
  | number (n : Nat)
  | items (blocks : List Block)
  | fields (entries : List (String × Block))
deriving Repr

/-- Ends the line, unless the text has ended it already. -/
def endLine (cs : List Char) : List Char :=
  if cs.getLast?.any isBreak then cs else cs ++ ['\n']

def scalarLine (indent : Nat) (cs : List Char) : List Char :=
  endLine (scalar (indent + indentStep) cs)

mutual

def fieldValue (column : Nat) : Block → List Char
  | .text s => ' ' :: scalarLine column s.toList
  | .number n => ' ' :: (toString n).toList ++ ['\n']
  | .items [] => [' ', '[', ']', '\n']
  | .items (block :: blocks) => '\n' :: indentation column ++ itemLines column (block :: blocks)
  | .fields [] => [' ', '\x7b', '\x7d', '\n']
  | .fields (entry :: entries) =>
      '\n' :: indentation (column + indentStep) ++
        fieldLines (column + indentStep) (entry :: entries)

def itemValue (column : Nat) : Block → List Char
  | .text s => ' ' :: scalarLine column s.toList
  | .number n => ' ' :: (toString n).toList ++ ['\n']
  | .items [] => [' ', '[', ']', '\n']
  | .items (block :: blocks) => ' ' :: itemLines (column + indentStep) (block :: blocks)
  | .fields [] => [' ', '\x7b', '\x7d', '\n']
  | .fields (entry :: entries) => ' ' :: fieldLines (column + indentStep) (entry :: entries)

/-- The lines of a list. The first begins where the column has been reached already. -/
def itemLines (column : Nat) : List Block → List Char
  | [] => []
  | [block] => '-' :: itemValue column block
  | block :: block' :: blocks =>
      '-' :: itemValue column block ++ indentation column ++ itemLines column (block' :: blocks)

def fieldLines (column : Nat) : List (String × Block) → List Char
  | [] => []
  | [(name, block)] => name.toList ++ ':' :: fieldValue column block
  | (name, block) :: entry :: entries =>
      name.toList ++ ':' :: fieldValue column block ++ indentation column ++
        fieldLines column (entry :: entries)

end

def document (entries : List (String × Block)) : String :=
  String.ofList (fieldLines 0 entries)

end Yaml
end CatalogAudit
