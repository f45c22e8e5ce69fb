import CatalogAudit.Catalog.KeyPath
import CatalogAudit.Fault
import CatalogAudit.FileTree.Resolve
import CatalogAudit.Text.Blank

/-!
# Ignore lists

An ignore list names key prefixes, one per line. Blanks around a prefix and blank lines do not
count. Every key that begins with one of the prefixes is left out of the audit.
-/

namespace CatalogAudit
namespace IgnoreList

def parse (text : String) : List String :=
  let lines := (Text.splitOn '\n' text.toList).map Text.trim
  (lines.filter (fun line => !line.isEmpty)).map String.ofList

def read (disk : FileTree.Disk) (path : Path) : Except Fault (List String) := do
  let text ← withContext .file (.readIgnoreList path) (disk.readText path)
  return parse text

def isIgnored (prefixes : List String) (key : String) : Bool :=
  prefixes.any (fun p => p.toList.isPrefixOf key.toList)

def apply (prefixes : List String) (keys : KeySet) : KeySet :=
  keys.filter (fun key => !isIgnored prefixes key)

def ignoredCount (prefixes : List String) (keys : KeySet) : Nat :=
  keys.size - (apply prefixes keys).size

end IgnoreList
end CatalogAudit
