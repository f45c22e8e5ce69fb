import CatalogAudit.FileTree.Resolve
import CatalogAudit.Settings.Reader

/-!
# The settings of a project

The settings file is looked for in a directory and in those above it. The search ends at the top of
a repository, which holds an entry named `.git`. A project without a settings file has the default
settings. Paths in the settings are seen from the directory of the file, or else from the directory
where the search began.
-/

namespace CatalogAudit
namespace Settings

open FileTree (Disk)

def fileName : Path := bytesOf ".i18nrc.json"

def repositoryMark : Path := bytesOf ".git"

/-- The settings file of the first directory that has one, unless a repository ends before. -/
def findIn (disk : Disk) : List Path → Option Path
  | [] => none
  | directory :: above =>
      if disk.exists? (Path.join directory fileName) then some (Path.join directory fileName)
      else if disk.exists? (Path.join directory repositoryMark) then none
      else findIn disk above

def find? (disk : Disk) (start : Path) : Option Path :=
  findIn disk (Path.ancestors start)

def read (disk : Disk) (path : Path) : Except Fault Settings := do
  let text ← withContext .file (.readSettings path) (disk.readText path)
  let settings ← withContext .json (.parseSettings path) (parse (bytesOf text))
  settings.check
  return settings

end Settings

structure Project where
  settings : Settings
  /-- The settings file, if there is one. -/
  file : Option Path
  /-- The directory from which paths in the settings are seen. -/
  directory : Path
deriving DecidableEq, Repr

namespace Project

def loadFrom (disk : FileTree.Disk) (start : Path) : Except Fault Project :=
  match Settings.find? disk start with
  | some path => do
      let settings ← Settings.read disk path
      return ⟨settings, some path, (Path.parent? path).getD start⟩
  | none => .ok ⟨.default, none, start⟩

def load (disk : FileTree.Disk) : Except Fault Project := do
  let start ← withContext .file .workingDirectory disk.workingDirectory
  loadFrom disk start

/-- A path from the settings, as seen from the working directory. -/
def resolve (project : Project) (path : String) : Path :=
  Path.join project.directory (bytesOf path)

/-- The given path as it is, or else the one from the settings. -/
def pathOr (project : Project) (given : Option Path) (path : String) : Path :=
  given.getD (project.resolve path)

end Project
end CatalogAudit
