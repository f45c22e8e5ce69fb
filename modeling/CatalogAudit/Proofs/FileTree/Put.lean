import CatalogAudit.FileTree.Node
import CatalogAudit.Ordered.Map

/-!
# Putting a file into a tree

The file is found at its own place afterwards. Everywhere else the tree keeps its outline: what was
a directory is still one, if with other entries, and links and other files are as they were.
-/

namespace CatalogAudit
namespace FileTree

open Utf8 (Bytes)

/-!
# One directory

Entries are set as the values of an ordered map are, whether they are in order or not.
-/

theorem putEntry_eq_setAscending (name : Name) (node : Node) (entries : Entries) :
    putEntry name node entries = SortedMap.setAscending name node entries := by
  induction entries with
  | nil => rfl
  | cons entry rest ih =>
      obtain ⟨name', node'⟩ := entry
      rw [putEntry, SortedMap.setAscending, ih]

theorem lookup_putEntry (name : Name) (node : Node) (entries : Entries) (other : Name) :
    (putEntry name node entries).lookup other =
      if other = name then some node else entries.lookup other := by
  rw [putEntry_eq_setAscending]
  exact SortedMap.lookup_setAscending name node other entries

/-!
# Trees
-/

namespace Node

@[simp] theorem at?_nil (node : Node) : node.at? [] = some node := by
  unfold Node.at?
  rfl

theorem at?_directory_cons (entries : Entries) (name : Name) (names : Location) :
    (Node.directory entries).at? (name :: names) =
      (entries.lookup name).bind (fun node => node.at? names) := by
  rw [Node.at?]
  cases entries.lookup name with
  | none => rfl
  | some node => rfl

theorem at?_cons_eq_some {tree node : Node} {name : Name} {names : Location}
    (h : tree.at? (name :: names) = some node) :
    ∃ entries child, tree = .directory entries ∧ entries.lookup name = some child ∧
      child.at? names = some node := by
  cases tree with
  | file content => rw [Node.at?] at h; cases h
  | link target => rw [Node.at?] at h; cases h
  | directory entries =>
      rw [at?_directory_cons, Option.bind_eq_some_iff] at h
      rcases h with ⟨child, hChild, hNode⟩
      exact ⟨entries, child, rfl, hChild, hNode⟩

theorem at?_append {tree node : Node} {location : Location}
    (h : tree.at? location = some node) (names : Location) :
    tree.at? (location ++ names) = node.at? names := by
  induction location generalizing tree with
  | nil =>
      rw [at?_nil] at h
      cases h
      rfl
  | cons first location ih =>
      rcases at?_cons_eq_some h with ⟨entries, child, rfl, hChild, hNode⟩
      rw [List.cons_append, at?_directory_cons, hChild]
      exact ih hNode

theorem at?_of_at?_snoc {tree node : Node} {location : Location} {name : Name}
    (h : tree.at? (location ++ [name]) = some node) :
    ∃ entries, tree.at? location = some (.directory entries) := by
  induction location generalizing tree with
  | nil =>
      rcases at?_cons_eq_some h with ⟨entries, _, hTree, _, _⟩
      exact ⟨entries, by rw [hTree, at?_nil]⟩
  | cons first location ih =>
      rcases at?_cons_eq_some h with ⟨entries, child, hTree, hChild, hNode⟩
      rcases ih hNode with ⟨inner, hInner⟩
      refine ⟨inner, ?_⟩
      rw [hTree, at?_directory_cons, hChild]
      exact hInner

/-!
# Directories
-/

def IsDirectoryAt (top : Node) (location : Location) : Prop :=
  ∃ entries, top.at? location = some (.directory entries)

theorem isDirectoryAt_dropLast {top : Node} {location : Location}
    (h : top.IsDirectoryAt location) : top.IsDirectoryAt location.dropLast := by
  rcases h with ⟨entries, hEntries⟩
  rcases List.eq_nil_or_concat location with rfl | ⟨init, name, rfl⟩
  · exact ⟨entries, hEntries⟩
  · rw [List.concat_eq_append] at hEntries ⊢
    rw [List.dropLast_concat]
    exact at?_of_at?_snoc hEntries

theorem isDirectoryAt_nil {top : Node} {location : Location}
    (h : top.IsDirectoryAt location) : top.IsDirectoryAt [] := by
  rcases h with ⟨entries, hEntries⟩
  cases location with
  | nil => exact ⟨entries, hEntries⟩
  | cons name names =>
      rcases at?_cons_eq_some hEntries with ⟨outer, _, hTop, _, _⟩
      exact ⟨outer, by rw [hTop, at?_nil]⟩

theorem isDirectoryAt_of_append {top node : Node} {location names : Location}
    (hNames : names ≠ []) (h : top.at? (location ++ names) = some node) :
    top.IsDirectoryAt location := by
  induction location generalizing top with
  | nil =>
      obtain ⟨name, rest, rfl⟩ := List.exists_cons_of_ne_nil hNames
      rcases at?_cons_eq_some h with ⟨entries, _, hTop, _, _⟩
      exact ⟨entries, by rw [hTop, at?_nil]⟩
  | cons first location ih =>
      rcases at?_cons_eq_some h with ⟨outer, child, hTop, hChild, hNode⟩
      rcases ih hNode with ⟨entries, hEntries⟩
      refine ⟨entries, ?_⟩
      rw [hTop, at?_directory_cons, hChild]
      exact hEntries

theorem entriesAt?_eq_some {tree : Node} {location : Location} {entries : Entries} :
    tree.entriesAt? location = some entries ↔ tree.at? location = some (.directory entries) := by
  unfold entriesAt?
  cases tree.at? location with
  | none => simp
  | some node =>
      cases node with
      | file content => simp
      | link target => simp
      | directory inner => simp

theorem isSome_entriesAt?_iff {tree : Node} {location : Location} :
    (tree.entriesAt? location).isSome = true ↔ tree.IsDirectoryAt location := by
  rw [Option.isSome_iff_exists]
  exact exists_congr fun _ => entriesAt?_eq_some

/-!
# One file more
-/

/-- The node without what is in it if it is a directory. -/
def outline : Node → Node
  | .directory _ => .directory []
  | node => node

theorem put_directory_cons {entries : Entries} {child : Node} {first : Name}
    (hChild : entries.lookup first = some child) (location : Location) (name : Name)
    (node : Node) :
    (Node.directory entries).put (first :: location) name node =
      .directory (putEntry first (child.put location name node) entries) := by
  show Node.modifyAt _ (first :: location) (.directory entries) = _
  rw [Node.modifyAt, hChild]
  rfl

theorem put_directory_cons_of_none {entries : Entries} {first : Name}
    (hChild : entries.lookup first = none) (location : Location) (name : Name) (node : Node) :
    (Node.directory entries).put (first :: location) name node = .directory entries := by
  show Node.modifyAt _ (first :: location) (.directory entries) = _
  rw [Node.modifyAt, hChild]

theorem at?_put_self {tree : Node} {location : Location} {entries : Entries}
    (h : tree.at? location = some (.directory entries)) (name : Name) (node : Node) :
    (tree.put location name node).at? (location ++ [name]) = some node := by
  induction location generalizing tree with
  | nil =>
      rw [at?_nil] at h
      cases h
      show (Node.directory (putEntry name node entries)).at? [name] = some node
      rw [at?_directory_cons, lookup_putEntry, if_pos rfl]
      exact at?_nil node
  | cons first location ih =>
      rcases at?_cons_eq_some h with ⟨outer, child, hTree, hChild, hInner⟩
      subst hTree
      rw [put_directory_cons hChild, List.cons_append, at?_directory_cons, lookup_putEntry,
        if_pos rfl]
      exact ih hInner

/-- Nothing is below the place of a file. -/
def IsFilePlace (tree : Node) (location : Location) : Prop :=
  tree.at? location = none ∨ ∃ content, tree.at? location = some (.file content)

theorem at?_below_filePlace {tree : Node} {name : Name} (h : tree.IsFilePlace [name])
    (next : Name) (names : Location) : tree.at? (name :: next :: names) = none := by
  cases hBelow : tree.at? (name :: next :: names) with
  | none => rfl
  | some node =>
      rcases at?_cons_eq_some hBelow with ⟨entries, child, hTree, hChild, hNode⟩
      have hPlace : tree.at? [name] = some child := by
        rw [hTree, at?_directory_cons, hChild]
        exact at?_nil child
      rcases h with hNone | ⟨content, hFile⟩
      · rw [hNone] at hPlace
        cases hPlace
      · rw [hFile] at hPlace
        cases hPlace
        rw [Node.at?] at hNode
        cases hNode

/-- At every other location a directory stays a directory, and all else stays what it is. -/
theorem outline_at?_put {tree : Node} {location : Location} {name : Name}
    (hPlace : tree.IsFilePlace (location ++ [name])) (content : Bytes) {other : Location}
    (hOther : other ≠ location ++ [name]) :
    ((tree.put location name (.file content)).at? other).map outline =
      (tree.at? other).map outline := by
  -- Down the way to the directory, where the other location leaves it or goes on with it.
  induction location generalizing tree other with
  | nil =>
      cases tree with
      | file old => rfl
      | link target => rfl
      | directory entries =>
          show ((Node.directory (putEntry name (.file content) entries)).at? other).map outline = _
          cases other with
          | nil => rfl
          | cons first names =>
              by_cases hFirst : first = name
              · subst hFirst
                cases names with
                | nil => exact absurd rfl hOther
                | cons second names =>
                    rw [at?_below_filePlace hPlace, at?_directory_cons, lookup_putEntry, if_pos rfl]
                    rfl
              · rw [at?_directory_cons, at?_directory_cons, lookup_putEntry, if_neg hFirst]
  | cons first location ih =>
      cases tree with
      | file old => rfl
      | link target => rfl
      | directory entries =>
          cases hChild : entries.lookup first with
          | none => rw [put_directory_cons_of_none hChild]
          | some child =>
              rw [put_directory_cons hChild]
              cases other with
              | nil => rfl
              | cons first' names =>
                  rw [at?_directory_cons, at?_directory_cons, lookup_putEntry]
                  by_cases hFirst : first' = first
                  · subst hFirst
                    rw [if_pos rfl, hChild]
                    have hPlace' : child.IsFilePlace (location ++ [name]) := by
                      unfold IsFilePlace at hPlace
                      rw [List.cons_append, at?_directory_cons, hChild] at hPlace
                      exact hPlace
                    exact ih hPlace' (fun hEq => hOther (by rw [hEq, List.cons_append]))
                  · rw [if_neg hFirst]

theorem directory_of_outline {node : Node} {entries : Entries}
    (h : node.outline = (Node.directory entries).outline) : ∃ inner, node = .directory inner := by
  cases node with
  | file content => cases h
  | link target => cases h
  | directory inner => exact ⟨inner, rfl⟩

theorem file_of_outline {node : Node} {content : Bytes} (h : node.outline = .file content) :
    node = .file content := by
  cases node with
  | file inside => exact h
  | link target => cases h
  | directory entries => cases h

theorem link_of_outline {node : Node} {target : Path}
    (h : node.outline = (Node.link target).outline) : node = .link target := by
  cases node with
  | file content => cases h
  | link other => exact h
  | directory entries => cases h

/-- What is at the place of a file after the write is the new file, or there was no directory. -/
theorem at?_put_filePlace {tree : Node} {location : Location} {name : Name}
    (hPlace : tree.IsFilePlace (location ++ [name])) (content : Bytes) :
    (tree.put location name (.file content)).at? (location ++ [name]) = some (.file content) ∨
      tree.at? (location ++ [name]) = none ∧
        (tree.put location name (.file content)).at? (location ++ [name]) = none := by
  have hDirectory : ∀ node, tree.at? (location ++ [name]) = some node →
      (tree.put location name (.file content)).at? (location ++ [name]) =
        some (.file content) := by
    intro node hNode
    rcases at?_of_at?_snoc hNode with ⟨entries, hEntries⟩
    exact at?_put_self hEntries name (.file content)
  cases hAfter : (tree.put location name (.file content)).at? (location ++ [name]) with
  | none =>
      refine Or.inr ⟨?_, rfl⟩
      cases hBefore : tree.at? (location ++ [name]) with
      | none => rfl
      | some node =>
          rw [hDirectory node hBefore] at hAfter
          cases hAfter
  | some node =>
      rcases at?_of_at?_snoc hAfter with ⟨entries, hEntries⟩
      have hSame := outline_at?_put hPlace content
        (show location ≠ location ++ [name] by simp)
      rw [hEntries, Option.map_some] at hSame
      rcases Option.map_eq_some_iff.mp hSame.symm with ⟨before, hBefore, hOutline⟩
      rcases directory_of_outline hOutline with ⟨inner, rfl⟩
      rw [at?_put_self hBefore name (.file content)] at hAfter
      exact Or.inl hAfter.symm

end Node

end FileTree
end CatalogAudit
