import CatalogAudit.FileTree.Node

/-!
# Following paths

A path is followed part by part from the working directory, or from the top if it is absolute.
Symbolic links are replaced by their targets, at most forty on the way. A path that ends in a
slash has to lead to a directory.

The canonical location of what a path leads to is found in the same way. But then each entry on the
way is asked for by its absolute path, so that path has to be short enough, and not the given one.
-/

namespace CatalogAudit
namespace FileTree

open CatalogAudit.Path (slash dot)
open Utf8 (Bytes)

/-- A tree of files and the directory from which relative paths are followed. -/
structure Disk where
  top : Node
  cwd : Location

def pathTo (location : Location) : Path :=
  slash :: [slash].intercalate location

/-!
# Where a path leads

A path leads to a node, or to a name that a directory does not have yet. The location never passes
through a link.
-/

inductive Target where
  | present (location : Location) (node : Node)
  | absent (directory : Location) (name : Name)

def maxLinks : Nat := 40

def maxNameLength : Nat := 255
def pathLengthBound : Nat := 4096

/-- Whether the entry at a location can be asked for when these parts follow. -/
abbrev Access := Location → List Name → Bool

/-- What to do with a link: the directory it stands in and the parts to follow from there. -/
abbrev Jump := Location → List Name → Except Fault Target

/--
Follows the parts from a directory. A link is handed over to `jump` together with the parts behind
it. The last part is followed as well only if `last` says so.
-/
def follow (access : Access) (top : Node) (last : Bool) (jump : Jump) :
    Location → List Name → Except Fault Target
  | location, [] =>
      match top.at? location with
      | some node => .ok (.present location node)
      | none => .error .notFound
  | location, part :: parts =>
      if part = [] ∨ part = [dot] then follow access top last jump location parts
      else if part = [dot, dot] then follow access top last jump location.dropLast parts
      else if maxNameLength < part.length ∨ access (location ++ [part]) parts = false then
        .error .nameTooLong
      else
        match top.at? (location ++ [part]) with
        | none => if parts = [] then .ok (.absent location part) else .error .notFound
        | some (.file content) =>
            if parts = [] then .ok (.present (location ++ [part]) (.file content))
            else .error .notDirectory
        | some (.directory _) => follow access top last jump (location ++ [part]) parts
        | some (.link target) =>
            if parts = [] ∧ !last then .ok (.present (location ++ [part]) (.link target))
            else
              jump (if Path.isAbsolute target then [] else location) (Path.pieces target ++ parts)

def followLinks (access : Access) (top : Node) (last : Bool) :
    Nat → Location → List Name → Except Fault Target
  | 0 => follow access top last (fun _ _ => .error .tooManyLinks)
  | links + 1 => follow access top last (followLinks access top last links)

def anyAccess : Access := fun _ _ => true

def needsDirectory : List Name → Bool
  | [] => false
  | part :: parts =>
      if part = [] ∨ part = [dot] then parts.isEmpty || needsDirectory parts
      else part = [dot, dot]

/-- An entry is asked for by its absolute path, with a slash at the end if it is a directory. -/
def wholePathAccess : Access := fun location parts =>
  (pathTo location).length + (if needsDirectory parts then 1 else 0) < pathLengthBound

namespace Disk

def checkPath (path : Path) : Except Fault Unit :=
  if path.contains 0 then .error .nulInPath
  else if path = [] then .error .notFound
  else if pathLengthBound ≤ path.length then .error .nameTooLong
  else .ok ()

def cwdPath (disk : Disk) : Path :=
  pathTo disk.cwd

/-- The path of the working directory, which may have been removed meanwhile. -/
def workingDirectory (disk : Disk) : Except Fault Path :=
  match disk.top.entriesAt? disk.cwd with
  | some _ => .ok disk.cwdPath
  | none => .error .notFound

def startOf (disk : Disk) (path : Path) : Location :=
  if Path.isAbsolute path then [] else disk.cwd

def locate (disk : Disk) (last : Bool) (path : Path) : Except Fault Target := do
  checkPath path
  followLinks anyAccess disk.top last maxLinks (disk.startOf path) (Path.pieces path)

/-!
# Questions about a path
-/

def resolve (disk : Disk) (path : Path) : Except Fault (Location × Node) := do
  match ← disk.locate true path with
  | .present location node => return (location, node)
  | .absent _ _ => .error .notFound

def exists? (disk : Disk) (path : Path) : Bool :=
  match disk.resolve path with
  | .ok _ => true
  | .error _ => false

def isDirectory (disk : Disk) (path : Path) : Bool :=
  match disk.resolve path with
  | .ok (_, .directory _) => true
  | _ => false

def isFile (disk : Disk) (path : Path) : Bool :=
  match disk.resolve path with
  | .ok (_, .file _) => true
  | _ => false

/-- The canonical location of what a path leads to, if it can be found. -/
def canonical? (disk : Disk) (path : Path) : Option Location :=
  if path.contains 0 ∨ path = [] then none
  else
    match followLinks wholePathAccess disk.top true maxLinks (disk.startOf path)
      (Path.pieces path) with
    | .ok (.present location _) => some location
    | .ok (.absent _ _) => none
    | .error _ => none

def listDirectory (disk : Disk) (path : Path) : Except Fault (List Name) := do
  match ← disk.resolve path with
  | (_, .directory entries) => return entries.map (·.1)
  | _ => .error .notDirectory

/-!
# Reading and writing
-/

def readBytes (disk : Disk) (path : Path) : Except Fault Bytes := do
  match ← disk.resolve path with
  | (_, .file content) => return content
  | _ => .error .isDirectory

def readText (disk : Disk) (path : Path) : Except Fault String := do
  let bytes ← disk.readBytes path
  match textOf? bytes with
  | some text => return text
  | none => .error .notUtf8

def endsInSlash (path : Path) : Bool :=
  match (Path.pieces path).reverse with
  | [] :: rest =>
      match rest.dropWhile (· == []) with
      | name :: _ => name ≠ [dot] ∧ name ≠ [dot, dot]
      | [] => false
  | _ => false

/--
Puts a file with the given content where the path leads, in place of an old file. There is no new
file in a directory that is gone.
-/
def write (disk : Disk) (path : Path) (content : Bytes) : Except Fault Disk := do
  if endsInSlash path then
    checkPath path
    let parts := (((Path.pieces path).reverse.dropWhile (· == [])).drop 1).reverse ++ [[]]
    let _ ← followLinks anyAccess disk.top true maxLinks (disk.startOf path) parts
    .error .isDirectory
  else
    match ← disk.locate true path with
    | .absent directory name =>
        match disk.top.entriesAt? directory with
        | some _ => return { disk with top := disk.top.put directory name (.file content) }
        | none => .error .notFound
    | .present location (.file _) =>
        match location.reverse with
        | [] => .error .isDirectory
        | name :: rest =>
            return { disk with top := disk.top.put rest.reverse name (.file content) }
    | .present _ _ => .error .isDirectory

end Disk
end FileTree
end CatalogAudit
