import CatalogAudit.Fault
import CatalogAudit.FileTree.Resolve
import CatalogAudit.Glob.Pattern

/-!
# Finding source files

All files below a root directory whose names match one of the patterns, except the files that the
audit itself writes. Directories with ignored names are passed over, and no link is followed below
the root. A name that is not a text neither matches a pattern nor is ignored.
-/

namespace CatalogAudit
namespace SourceScan

open FileTree (Disk Location Name)

def compilePatterns (patterns : List String) : Except Fault (List Glob.Pattern) :=
  patterns.mapM fun pattern =>
    withContext .pattern (.sourcePattern pattern) (Glob.parse pattern)

def pathBelow (root : Path) (location : Location) : Path :=
  location.foldl Path.join root

structure Request where
  root : Path
  ignoredDirs : List String
  patterns : List String
  excluded : List Path

def isIgnored (ignoredDirs : List String) (name : Name) : Bool :=
  (textOf? name).any ignoredDirs.contains

def isSource (patterns : List Glob.Pattern) (name : Name) : Bool :=
  (textOf? name).any fun text => patterns.any (·.admits text)

/--
Whether a file is one of the excluded ones, given by their canonical locations. The names are
compared first, since most files share none.
-/
def isExcluded (disk : Disk) (excluded : List Location) (path : Path) (name : Name) : Bool :=
  excluded.any (fun location => location.getLast? == some name) &&
    (disk.canonical? path).any excluded.contains

/-- Opens a directory below the root by its path, which may be too long. -/
def openDirectory (root path : Path) : Except Fault Unit :=
  match Disk.checkPath path with
  | .ok _ => .ok ()
  | .error fault => .error ⟨[.walkSource root, .walkAt path fault], .file fault⟩

/-- The paths of the source files, in the order of the directories' entries. -/
def find (disk : Disk) (request : Request) : Except Fault (List Path) := do
  match disk.resolve request.root with
  | .error _ => .error (.of (.sourceMissing request.root))
  | .ok (_, .directory entries) =>
      let patterns ← compilePatterns request.patterns
      let excluded := request.excluded.filterMap disk.canonical?
      let admits (name : Name) : Bool := !isIgnored request.ignoredDirs name
      (FileTree.directoriesAmong admits entries).forM fun directory =>
        openDirectory request.root (pathBelow request.root directory)
      let files := (FileTree.filesAmong admits entries).filter fun file =>
        match file.getLast? with
        | some name =>
            isSource patterns name &&
              !isExcluded disk excluded (pathBelow request.root file) name
        | none => false
      return files.map (pathBelow request.root)
  | .ok (_, .file _) => .error (.of (.sourceNotDirectory request.root))
  | .ok (_, .link _) => .error (.of (.sourceNotDirectory request.root))

end SourceScan
end CatalogAudit
