import CatalogAudit.FileTree.Fault
import CatalogAudit.FileTree.Path

/-!
# File trees

A directory holds named nodes: files with their bytes, symbolic links with the path of their
target, and directories. Names are bytes, which need not be a text, and the names in a directory are
kept in ascending order. A location is the list of names that leads to a node from the top, through
directories only.
-/

namespace CatalogAudit
namespace FileTree

open Utf8 (Bytes)

abbrev Name := Bytes

inductive Node where
  | file (content : Bytes)
  | link (target : Path)
  | directory (entries : List (Name × Node))
deriving Inhabited, Repr

abbrev Entries := List (Name × Node)

abbrev Location := List Name

/-!
# Looking up
-/

namespace Node

/-- The node at a location. Links on the way are not followed. -/
def at? : Node → Location → Option Node
  | node, [] => some node
  | .directory entries, name :: names =>
      match entries.lookup name with
      | some node => node.at? names
      | none => none
  | .file _, _ :: _ => none
  | .link _, _ :: _ => none
termination_by structural _ location => location

def entriesAt? (node : Node) (location : Location) : Option Entries :=
  match node.at? location with
  | some (.directory entries) => some entries
  | _ => none

end Node

/-!
# Changing

Putting a node under a name replaces what the name stood for. A location that does not lead to a
directory leaves the tree as it is.
-/

def putEntry (name : Name) (node : Node) : Entries → Entries
  | [] => [(name, node)]
  | (name', node') :: rest =>
      if name < name' then (name, node) :: (name', node') :: rest
      else if name' < name then (name', node') :: putEntry name node rest
      else (name, node) :: rest

def dropEntry (name : Name) (entries : Entries) : Entries :=
  entries.filter (·.1 ≠ name)

namespace Node

def modifyAt (change : Entries → Entries) : Location → Node → Node
  | [], .directory entries => .directory (change entries)
  | name :: names, .directory entries =>
      match entries.lookup name with
      | some node => .directory (putEntry name (modifyAt change names node) entries)
      | none => .directory entries
  | _, .file content => .file content
  | _, .link target => .link target

def put (tree : Node) (location : Location) (name : Name) (node : Node) : Node :=
  tree.modifyAt (putEntry name node) location

def drop (tree : Node) (location : Location) (name : Name) : Node :=
  tree.modifyAt (dropEntry name) location

end Node

/-!
# What is below a directory

Everything that is reached without following a link, with its location relative to the directory, in
the order of the names and each directory before what is in it. A directory whose name is not
admitted is passed over.
-/

/-- The node itself and what is below it, unless it is a directory that is not admitted. -/
def visitedAt (admits : Name → Bool) (name : Name) (node : Node)
    (below : List (Location × Node)) : List (Location × Node) :=
  match node with
  | .directory _ =>
      if admits name then
        ([name], node) :: below.map fun visit => (name :: visit.1, visit.2)
      else []
  | _ => [([name], node)]

mutual

def visitedBelow (admits : Name → Bool) : Node → List (Location × Node)
  | .directory entries => visitedAmong admits entries
  | .file _ => []
  | .link _ => []
termination_by structural node => node

def visitedAmong (admits : Name → Bool) : Entries → List (Location × Node)
  | [] => []
  | (name, node) :: entries =>
      visitedAt admits name node (visitedBelow admits node) ++ visitedAmong admits entries
termination_by structural entries => entries

end

def Node.isFile : Node → Bool
  | .file _ => true
  | _ => false

def Node.isDirectory : Node → Bool
  | .directory _ => true
  | _ => false

def filesAmong (admits : Name → Bool) (entries : Entries) : List Location :=
  ((visitedAmong admits entries).filter fun visit => visit.2.isFile).map (·.1)

/-- The locations of the directories, each before those in it. -/
def directoriesAmong (admits : Name → Bool) (entries : Entries) : List Location :=
  ((visitedAmong admits entries).filter fun visit => visit.2.isDirectory).map (·.1)

end FileTree
end CatalogAudit
