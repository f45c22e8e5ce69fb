import CatalogAudit.Catalog.File
import CatalogAudit.Ordered.Map

/-!
# Locale files

A directory of locales holds one catalog for each locale, in a file named by a code of two
characters. A locale's messages are the entries of its catalog, each key at most once.
-/

namespace CatalogAudit
namespace Locale

open FileTree (Disk)

abbrev Messages := SortedMap String String

abbrev Locales := SortedMap String Messages

def codeLength : Nat := 2

def localeOf? (name : FileTree.Name) : Option String :=
  match Path.splitExtension name with
  | (stem, some extension) =>
      if extension = bytesOf "json" then
        (textOf? stem).filter fun code => code.length = codeLength
      else none
  | (_, none) => none

structure LocaleFile where
  locale : String
  path : Path
deriving DecidableEq, Repr

/-- The locale files right inside a directory, ascending by locale. -/
def files (disk : Disk) (directory : Path) : Except Fault (List LocaleFile) := do
  let names ← withContext .file (.readLocales directory) (disk.listDirectory directory)
  return names.filterMap fun name =>
    let path := Path.join directory name
    if disk.isFile path then (localeOf? name).map (⟨·, path⟩) else none

/-!
# Loading
-/

/-- Adds entries in order. The first key that is there already stops it. -/
def addEntries (path : Path) : List Catalog.Entry → Messages → Except Fault Messages
  | [], messages => .ok messages
  | entry :: entries, messages =>
      if messages.contains entry.key then .error (.of (.duplicateKey entry.key path))
      else addEntries path entries (messages.set entry.key entry.value)

def load (disk : Disk) (path : Path) : Except Fault Messages := do
  let flat ← Catalog.load disk path
  addEntries path flat.entries .empty

def loadFiles (disk : Disk) (files : List LocaleFile) : Except Fault Locales := do
  let loaded ← files.mapM fun file => do
    let messages ← load disk file.path
    return (file.locale, messages)
  return .ofList loaded

/-- All locales of a directory, of which there has to be one. -/
def loadAll (disk : Disk) (directory : Path) : Except Fault Locales := do
  let found ← files disk directory
  if found.isEmpty then .error (.of (.noLocaleFiles directory))
  else loadFiles disk found

end Locale
end CatalogAudit
