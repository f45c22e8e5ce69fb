import CatalogAudit.Proofs.FileTree.Beside
import CatalogAudit.Proofs.Ordered.Lookup

/-!
# What is below a directory

The listing holds exactly what is reached through admitted directories, each node once, in the order
of the locations.
-/

namespace CatalogAudit
namespace FileTree

open Utf8 (Bytes)

/-!
# One entry
-/

section OneEntry

variable {admits : Name → Bool} {name : Name} {node : Node} {below : List (Location × Node)}

theorem visitedAt_of_not_isDirectory (h : node.isDirectory = false) :
    visitedAt admits name node below = [([name], node)] := by
  cases node with
  | file content => rfl
  | link target => rfl
  | directory entries => cases h

theorem visitedAt_directory {entries : Entries} (h : admits name = true) :
    visitedAt admits name (.directory entries) below =
      ([name], .directory entries) :: below.map fun visit => (name :: visit.1, visit.2) :=
  if_pos h

theorem visitedAt_passedOver {entries : Entries} (h : admits name = false) :
    visitedAt admits name (.directory entries) below = [] := by
  unfold visitedAt
  rw [h]
  rfl

theorem mem_visitedAt {visit : Location × Node} :
    visit ∈ visitedAt admits name node below ↔
      (node.isDirectory = true → admits name = true) ∧
        (visit = ([name], node) ∨
          node.isDirectory = true ∧ ∃ inner ∈ below, visit = (name :: inner.1, inner.2)) := by
  cases hDirectory : node.isDirectory with
  | false =>
      rw [visitedAt_of_not_isDirectory hDirectory]
      simp
  | true =>
      cases node with
      | file content => cases hDirectory
      | link target => cases hDirectory
      | directory entries =>
          cases hAdmits : admits name with
          | false =>
              rw [visitedAt_passedOver hAdmits]
              simp
          | true =>
              rw [visitedAt_directory hAdmits]
              simp [eq_comm]

theorem head_of_mem_visitedAt {visit : Location × Node}
    (h : visit ∈ visitedAt admits name node below) : ∃ names, visit.1 = name :: names := by
  rcases (mem_visitedAt.mp h).2 with rfl | ⟨_, inner, _, rfl⟩
  · exact ⟨[], rfl⟩
  · exact ⟨inner.1, rfl⟩

end OneEntry

theorem visitedAmong_cons (admits : Name → Bool) (name : Name) (node : Node) (entries : Entries) :
    visitedAmong admits ((name, node) :: entries) =
      visitedAt admits name node (visitedBelow admits node) ++ visitedAmong admits entries := by
  rw [visitedAmong]

theorem visitedBelow_directory (admits : Name → Bool) (entries : Entries) :
    visitedBelow admits (.directory entries) = visitedAmong admits entries := by
  rw [visitedBelow]

theorem mem_visitedAmong_iff_visitedAt {admits : Name → Bool} {entries : Entries}
    {visit : Location × Node} :
    visit ∈ visitedAmong admits entries ↔
      ∃ entry ∈ entries,
        visit ∈ visitedAt admits entry.1 entry.2 (visitedBelow admits entry.2) := by
  induction entries with
  | nil => simp [visitedAmong]
  | cons entry entries ih =>
      obtain ⟨name, node⟩ := entry
      rw [visitedAmong_cons, List.mem_append, ih]
      simp

/-!
# Members
-/

namespace Node

/-- A location leads to a file, through directories whose names are admitted. -/
def HasFile (admits : Name → Bool) (tree : Node) (file : Location) : Prop :=
  (∃ content, tree.at? file = some (.file content)) ∧ ∀ name ∈ file.dropLast, admits name = true

def HasDirectory (admits : Name → Bool) (tree : Node) (directory : Location) : Prop :=
  directory ≠ [] ∧ tree.IsDirectoryAt directory ∧ ∀ name ∈ directory, admits name = true

/-- A location leads to a node, through directories whose names are admitted. -/
structure Reaches (admits : Name → Bool) (tree : Node) (location : Location) (node : Node) :
    Prop where
  ne_nil : location ≠ []
  isAt : tree.at? location = some node
  above : ∀ name ∈ location.dropLast, admits name = true
  self : node.isDirectory = true → ∀ name ∈ location, admits name = true

theorem reaches_cons {admits : Name → Bool} {entries : Entries} {name : Name} {names : Location}
    {node : Node} :
    (Node.directory entries).Reaches admits (name :: names) node ↔
      ∃ child, entries.lookup name = some child ∧
        (child.isDirectory = true → admits name = true) ∧
        (names = [] ∧ node = child ∨
          ∃ inner, child = .directory inner ∧
            (Node.directory inner).Reaches admits names node) := by
  constructor
  · intro h
    rcases at?_cons_eq_some h.isAt with ⟨entries', child, hEq, hChild, hNode⟩
    cases hEq
    refine ⟨child, hChild, ?_⟩
    cases names with
    | nil =>
        rw [at?_nil] at hNode
        cases hNode
        exact ⟨fun hDirectory => h.self hDirectory name (List.mem_cons_self ..), Or.inl ⟨rfl, rfl⟩⟩
    | cons next rest =>
        rcases at?_cons_eq_some hNode with ⟨inner, _, rfl, _, _⟩
        refine ⟨fun _ => h.above name (List.mem_cons_self ..), Or.inr ⟨inner, rfl, ?_⟩⟩
        exact ⟨List.cons_ne_nil next rest, hNode,
          fun other hOther => h.above other (List.mem_cons_of_mem name hOther),
          fun hDirectory other hOther =>
            h.self hDirectory other (List.mem_cons_of_mem name hOther)⟩
  · intro h
    rcases h with ⟨child, hChild, hAdmits, ⟨rfl, rfl⟩ | ⟨inner, rfl, hInner⟩⟩
    · refine ⟨List.cons_ne_nil name [], ?_, ?_, ?_⟩
      · rw [at?_directory_cons, hChild]
        rfl
      · exact fun _ hName => absurd hName List.not_mem_nil
      · intro hDirectory other hOther
        rw [List.mem_singleton.mp hOther]
        exact hAdmits hDirectory
    · have hName := hAdmits rfl
      refine ⟨List.cons_ne_nil name names, ?_, ?_, ?_⟩
      · rw [at?_directory_cons, hChild]
        exact hInner.isAt
      · rw [List.dropLast_cons_of_ne_nil hInner.ne_nil]
        exact List.forall_mem_cons.mpr ⟨hName, hInner.above⟩
      · exact fun hDirectory => List.forall_mem_cons.mpr ⟨hName, hInner.self hDirectory⟩

theorem mem_visitedAmong {admits : Name → Bool} {entries : Entries}
    (hSound : (Node.directory entries).IsSound) {location : Location} {node : Node} :
    (location, node) ∈ visitedAmong admits entries ↔
      (Node.directory entries).Reaches admits location node := by
  -- The induction is on the location, since an entry is visited from the directory that it is in.
  induction location generalizing entries with
  | nil =>
      constructor
      · intro h
        rcases mem_visitedAmong_iff_visitedAt.mp h with ⟨entry, _, hVisit⟩
        rcases head_of_mem_visitedAt hVisit with ⟨names, hNames⟩
        cases hNames
      · exact fun h => absurd rfl h.ne_nil
  | cons name names ih =>
      cases hSound with
      | directory ascending hNames hNodes =>
          rw [mem_visitedAmong_iff_visitedAt, reaches_cons]
          constructor
          · intro h
            rcases h with ⟨⟨name', child⟩, hEntry, hVisit⟩
            rcases mem_visitedAt.mp hVisit with ⟨hAdmits, hEq | ⟨hDirectory, visit, hInner, hEq⟩⟩
            · cases hEq
              exact ⟨child, (SortedMap.lookup_eq_some_iff ascending).mpr hEntry, hAdmits,
                Or.inl ⟨rfl, rfl⟩⟩
            · cases hEq
              refine ⟨child, (SortedMap.lookup_eq_some_iff ascending).mpr hEntry, hAdmits,
                Or.inr ?_⟩
              cases child with
              | file content => cases hDirectory
              | link target => cases hDirectory
              | directory inner =>
                  rw [visitedBelow_directory] at hInner
                  exact ⟨inner, rfl, (ih (hNodes _ hEntry)).mp hInner⟩
          · intro h
            rcases h with ⟨child, hLookup, hAdmits, hNode⟩
            have hEntry := (SortedMap.lookup_eq_some_iff ascending).mp hLookup
            refine ⟨(name, child), hEntry, mem_visitedAt.mpr ⟨hAdmits, ?_⟩⟩
            rcases hNode with ⟨rfl, rfl⟩ | ⟨inner, rfl, hInner⟩
            · exact Or.inl rfl
            · refine Or.inr ⟨rfl, (names, node), ?_, rfl⟩
              rw [visitedBelow_directory]
              exact (ih (hNodes _ hEntry)).mpr hInner

theorem mem_filesAmong {admits : Name → Bool} {entries : Entries}
    (hSound : (Node.directory entries).IsSound) {file : Location} :
    file ∈ filesAmong admits entries ↔ (Node.directory entries).HasFile admits file := by
  unfold filesAmong
  rw [List.mem_map]
  constructor
  · intro h
    rcases h with ⟨⟨location, node⟩, hVisit, rfl⟩
    rcases List.mem_filter.mp hVisit with ⟨hVisit, hFile⟩
    have hReaches := (mem_visitedAmong hSound).mp hVisit
    cases node with
    | file content => exact ⟨⟨content, hReaches.isAt⟩, hReaches.above⟩
    | link target => cases hFile
    | directory inner => cases hFile
  · intro h
    rcases h with ⟨⟨content, hContent⟩, hAbove⟩
    refine ⟨(file, .file content), List.mem_filter.mpr ⟨?_, rfl⟩, rfl⟩
    refine (mem_visitedAmong hSound).mpr ⟨?_, hContent, hAbove, ?_⟩
    · intro hNil
      rw [hNil, at?_nil] at hContent
      cases hContent
    · intro hDirectory
      cases hDirectory

theorem mem_directoriesAmong {admits : Name → Bool} {entries : Entries}
    (hSound : (Node.directory entries).IsSound) {directory : Location} :
    directory ∈ directoriesAmong admits entries ↔
      (Node.directory entries).HasDirectory admits directory := by
  unfold directoriesAmong
  rw [List.mem_map]
  constructor
  · intro h
    rcases h with ⟨⟨location, node⟩, hVisit, rfl⟩
    rcases List.mem_filter.mp hVisit with ⟨hVisit, hDirectory⟩
    have hReaches := (mem_visitedAmong hSound).mp hVisit
    cases node with
    | file content => cases hDirectory
    | link target => cases hDirectory
    | directory inner => exact ⟨hReaches.ne_nil, ⟨inner, hReaches.isAt⟩, hReaches.self rfl⟩
  · intro h
    rcases h with ⟨hNonempty, ⟨inner, hInner⟩, hAdmits⟩
    refine ⟨(directory, .directory inner), List.mem_filter.mpr ⟨?_, rfl⟩, rfl⟩
    exact (mem_visitedAmong hSound).mpr ⟨hNonempty, hInner,
      fun name hName => hAdmits name (List.dropLast_subset directory hName), fun _ => hAdmits⟩

theorem mem_names {tree : Node} (hSound : tree.IsSound) {location : Location}
    {entries : Entries} (h : tree.at? location = some (.directory entries)) {name : Name} :
    name ∈ entries.map (·.1) ↔ (tree.at? (location ++ [name])).isSome = true := by
  cases hSound.of_at? h with
  | directory ascending _ _ =>
      rw [at?_append h, at?_directory_cons, List.mem_map, Option.isSome_iff_exists]
      simp only [at?_nil, Option.bind_fun_some, SortedMap.lookup_eq_some_iff ascending]
      constructor
      · intro hName
        rcases hName with ⟨⟨_, node⟩, hEntry, rfl⟩
        exact ⟨node, hEntry⟩
      · intro hName
        rcases hName with ⟨node, hEntry⟩
        exact ⟨(name, node), hEntry, rfl⟩

/-!
# Order
-/

theorem pairwise_names {tree : Node} (hSound : tree.IsSound) {location : Location}
    {entries : Entries} (h : tree.at? location = some (.directory entries)) :
    (entries.map (·.1)).Pairwise (· < ·) := by
  cases hSound.of_at? h with
  | directory ascending _ _ => exact List.pairwise_map.mpr ascending

theorem pairwise_visitedAt {admits : Name → Bool} {name : Name} {node : Node}
    {below : List (Location × Node)} (hNonempty : ∀ visit ∈ below, visit.1 ≠ [])
    (h : below.Pairwise (fun a b => a.1 < b.1)) :
    (visitedAt admits name node below).Pairwise (fun a b => a.1 < b.1) := by
  cases hDirectory : node.isDirectory with
  | false =>
      rw [visitedAt_of_not_isDirectory hDirectory]
      exact List.pairwise_singleton _ _
  | true =>
      cases node with
      | file content => cases hDirectory
      | link target => cases hDirectory
      | directory entries =>
          cases hAdmits : admits name with
          | false =>
              rw [visitedAt_passedOver hAdmits]
              exact List.Pairwise.nil
          | true =>
              rw [visitedAt_directory hAdmits]
              refine List.Pairwise.cons ?_ ?_
              · intro visit hVisit
                rcases List.mem_map.mp hVisit with ⟨inner, hInner, rfl⟩
                obtain ⟨next, rest, hNames⟩ := List.exists_cons_of_ne_nil (hNonempty inner hInner)
                rw [hNames]
                exact List.cons_lt_cons_iff.mpr (Or.inr ⟨rfl, List.nil_lt_cons next rest⟩)
              · exact List.pairwise_map.mpr
                  (h.imp fun hLess => List.cons_lt_cons_iff.mpr (Or.inr ⟨rfl, hLess⟩))

theorem pairwise_visitedAmong {admits : Name → Bool} {entries : Entries}
    (hAscending : entries.Pairwise (fun a b => a.1 < b.1))
    (h : ∀ entry ∈ entries,
      (visitedAt admits entry.1 entry.2 (visitedBelow admits entry.2)).Pairwise
        (fun a b => a.1 < b.1)) :
    (visitedAmong admits entries).Pairwise (fun a b => a.1 < b.1) := by
  induction entries with
  | nil => exact List.Pairwise.nil
  | cons entry entries ih =>
      obtain ⟨name, node⟩ := entry
      obtain ⟨hHead, hTail⟩ := List.pairwise_cons.mp hAscending
      rw [visitedAmong_cons, List.pairwise_append]
      refine ⟨?_, ?_, ?_⟩
      · exact h (name, node) (List.mem_cons_self ..)
      · exact ih hTail fun other hOther => h other (List.mem_cons_of_mem _ hOther)
      · intro visit hVisit other hOther
        rcases head_of_mem_visitedAt hVisit with ⟨names, hNames⟩
        rcases mem_visitedAmong_iff_visitedAt.mp hOther with ⟨entry, hEntry, hAt⟩
        rcases head_of_mem_visitedAt hAt with ⟨names', hNames'⟩
        rw [hNames, hNames']
        exact List.cons_lt_cons_iff.mpr (Or.inl (hHead entry hEntry))

/-- What is below a node is visited in strictly ascending order of the locations. -/
theorem pairwise_visitedBelow (admits : Name → Bool) {node : Node} (hSound : node.IsSound) :
    (visitedBelow admits node).Pairwise (fun a b => a.1 < b.1) := by
  induction hSound with
  | file content => exact List.Pairwise.nil
  | link target => exact List.Pairwise.nil
  | directory ascending _ hNodes ih =>
      rw [visitedBelow_directory]
      apply pairwise_visitedAmong ascending
      intro entry hEntry
      refine pairwise_visitedAt ?_ (ih entry hEntry)
      intro visit hVisit
      have hInner := hNodes entry hEntry
      revert hVisit
      cases entry.2 with
      | file content => exact fun hVisit => absurd hVisit List.not_mem_nil
      | link target => exact fun hVisit => absurd hVisit List.not_mem_nil
      | directory inner =>
          intro hVisit
          rw [visitedBelow_directory] at hVisit
          rcases mem_visitedAmong_iff_visitedAt.mp hVisit with ⟨_, _, hAt⟩
          rcases head_of_mem_visitedAt hAt with ⟨names, hNames⟩
          rw [hNames]
          exact List.cons_ne_nil _ names

theorem pairwise_filesAmong (admits : Name → Bool) {entries : Entries}
    (hSound : (Node.directory entries).IsSound) :
    (filesAmong admits entries).Pairwise (· < ·) := by
  have hVisits := pairwise_visitedBelow admits hSound
  rw [visitedBelow_directory] at hVisits
  exact List.pairwise_map.mpr (hVisits.filter _)

theorem pairwise_directoriesAmong (admits : Name → Bool) {entries : Entries}
    (hSound : (Node.directory entries).IsSound) :
    (directoriesAmong admits entries).Pairwise (· < ·) := by
  have hVisits := pairwise_visitedBelow admits hSound
  rw [visitedBelow_directory] at hVisits
  exact List.pairwise_map.mpr (hVisits.filter _)

end Node
end FileTree
end CatalogAudit
