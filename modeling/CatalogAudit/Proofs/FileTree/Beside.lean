import CatalogAudit.Proofs.FileTree.Continued

/-!
# Paths beside a changed file

Two trees agree beside the place of a file. Every path leads to the same in both of them, unless it
leads to that place. So what is asked about a path has the same answer before and after a write to
another place.
-/

namespace CatalogAudit
namespace FileTree

open Utf8 (Bytes)

/-!
# The same target
-/

/-- What a path leads to in two trees that differ in the file of this name in this directory. -/
inductive SameTarget (directory : Location) (name : Name) :
    Except Fault Target → Except Fault Target → Prop where
  | error (fault fault' : Fault) : SameTarget directory name (.error fault) (.error fault')
  | absent {inside : Location} {free : Name} (hOther : inside ++ [free] ≠ directory ++ [name]) :
      SameTarget directory name (.ok (.absent inside free)) (.ok (.absent inside free))
  | present {location : Location} {node node' : Node} (hOther : location ≠ directory ++ [name])
      (hOutline : node'.outline = node.outline) :
      SameTarget directory name (.ok (.present location node)) (.ok (.present location node'))
  | place {result result' : Except Fault Target} (hEnds : EndsAt directory name result)
      (hEnds' : EndsAt directory name result') : SameTarget directory name result result'

section Agreement

variable {directory : Location} {name : Name} {access : Access} {top top' : Node} {last : Bool}

theorem ne_place_of_isDirectoryAt {place location : Location} (hTops : AgreeBeside place top top')
    (h : top.IsDirectoryAt location) : location ≠ place := by
  intro hEq
  subst hEq
  rcases h with ⟨entries, hEntries⟩
  rcases hTops.before with hNone | ⟨content, hFile⟩
  · rw [hNone] at hEntries
    cases hEntries
  · rw [hFile] at hEntries
    cases hEntries

theorem at?_eq_none_of_agreeBeside {place other : Location} (hTops : AgreeBeside place top top')
    (hOther : other ≠ place) (h : top.at? other = none) : top'.at? other = none := by
  have hSame := hTops.outlines other hOther
  rw [h, Option.map_none, Option.map_eq_none_iff] at hSame
  exact hSame

theorem file_of_agreeBeside {place other : Location} (hTops : AgreeBeside place top top')
    (hOther : other ≠ place) {content : Bytes} (h : top.at? other = some (.file content)) :
    top'.at? other = some (.file content) := by
  have hSame := hTops.outlines other hOther
  rw [h, Option.map_some] at hSame
  rcases Option.map_eq_some_iff.mp hSame with ⟨node, hNode, hOutline⟩
  rw [hNode, Node.file_of_outline hOutline]

/-- Where the file is, one more part ends the path, and any part behind it is too much. -/
theorem sameTarget_follow_place (hTops : AgreeBeside (directory ++ [name]) top top')
    (hName : IsEntryName name) {jump jump' : Jump} {parts : List Name}
    (hAccess : access (directory ++ [name]) parts = true) :
    SameTarget directory name (follow access top last jump directory (name :: parts))
      (follow access top' last jump' directory (name :: parts)) := by
  cases parts with
  | nil =>
      exact .place (endsAt_follow_entry hName hAccess hTops.before)
        (endsAt_follow_entry hName hAccess hTops.after)
  | cons part parts =>
      have hTooMuch : ∀ (tree : Node) (jump : Jump), tree.IsFilePlace (directory ++ [name]) →
          ∃ fault, follow access tree last jump directory (name :: part :: parts) =
            .error fault := by
        intro tree jump hPlace
        rw [follow_entry hName hAccess]
        rcases hPlace with hNone | ⟨content, hFile⟩
        · rw [hNone]
          exact ⟨.notFound, rfl⟩
        · rw [hFile]
          exact ⟨.notDirectory, rfl⟩
      rcases hTooMuch top jump hTops.before with ⟨fault, hFault⟩
      rcases hTooMuch top' jump' hTops.after with ⟨fault', hFault'⟩
      rw [hFault, hFault']
      exact .error fault fault'

theorem sameTarget_follow (hTops : AgreeBeside (directory ++ [name]) top top') {jump jump' : Jump}
    (hJump : ∀ location parts, top.IsDirectoryAt location →
      SameTarget directory name (jump location parts) (jump' location parts))
    {location : Location} (hStart : top.IsDirectoryAt location) (parts : List Name) :
    SameTarget directory name (follow access top last jump location parts)
      (follow access top' last jump' location parts) := by
  induction parts generalizing location with
  | nil =>
      have hOther := ne_place_of_isDirectoryAt hTops hStart
      rcases hStart with ⟨entries, hEntries⟩
      rcases directory_of_agreeBeside hTops hEntries with ⟨inner, hInner⟩
      rw [follow_nil, follow_nil, hEntries, hInner]
      exact .present hOther rfl
  | cons part parts ih =>
      rcases part_cases access location part parts with
        hSkip | rfl | ⟨hSkip, hUp, hLong⟩ | ⟨hEntry, hAccess⟩
      · rw [follow_skipped hSkip, follow_skipped hSkip]
        exact ih hStart
      · rw [follow_up, follow_up]
        exact ih (Node.isDirectoryAt_dropLast hStart)
      · rw [follow_long hSkip hUp hLong, follow_long hSkip hUp hLong]
        exact .error _ _
      · by_cases hOther : location ++ [part] = directory ++ [name]
        -- The place itself comes first: anywhere else the two trees have the same kind of entry.
        · rcases List.append_inj' hOther rfl with ⟨rfl, hPart⟩
          cases hPart
          exact sameTarget_follow_place hTops hEntry hAccess
        · rw [follow_entry hEntry hAccess, follow_entry hEntry hAccess]
          cases hNode : top.at? (location ++ [part]) with
          | none =>
              rw [at?_eq_none_of_agreeBeside hTops hOther hNode]
              by_cases hLast : parts = []
              · simp only [if_pos hLast]
                exact .absent hOther
              · simp only [if_neg hLast]
                exact .error _ _
          | some node =>
              cases node with
              | file content =>
                  rw [file_of_agreeBeside hTops hOther hNode]
                  by_cases hLast : parts = []
                  · simp only [if_pos hLast]
                    exact .present hOther rfl
                  · simp only [if_neg hLast]
                    exact .error _ _
              | directory entries =>
                  rcases directory_of_agreeBeside hTops hNode with ⟨inner, hInner⟩
                  rw [hInner]
                  exact ih ⟨entries, hNode⟩
              | link text =>
                  rw [link_of_agreeBeside hTops hNode]
                  by_cases hLast : parts = [] ∧ !last
                  · simp only [if_pos hLast]
                    exact .present hOther rfl
                  · simp only [if_neg hLast]
                    exact hJump _ _ (isDirectoryAt_start hStart text)

theorem sameTarget_followLinks (hTops : AgreeBeside (directory ++ [name]) top top') (links : Nat)
    {location : Location} (hStart : top.IsDirectoryAt location) (parts : List Name) :
    SameTarget directory name (followLinks access top last links location parts)
      (followLinks access top' last links location parts) := by
  induction links generalizing location parts with
  | zero => exact sameTarget_follow hTops (fun _ _ _ => .error _ _) hStart parts
  | succ links ih => exact sameTarget_follow hTops (fun _ parts hDir => ih hDir parts) hStart parts

end Agreement

/-!
# Sound disks

The names in a directory are ascending and can be names of files, and the working directory is
there.
-/

inductive Node.IsSound : Node → Prop where
  | file (content : Bytes) : IsSound (.file content)
  | link (target : Path) : IsSound (.link target)
  | directory {entries : Entries} (ascending : entries.Pairwise (fun a b => a.1 < b.1))
      (names : ∀ entry ∈ entries, IsFileName entry.1)
      (nodes : ∀ entry ∈ entries, IsSound entry.2) : IsSound (.directory entries)

structure Disk.IsSound (disk : Disk) : Prop where
  top : disk.top.IsSound
  cwd : disk.top.IsDirectoryAt disk.cwd

namespace Node

theorem mem_of_lookup {entries : Entries} {name : Name} {node : Node}
    (h : entries.lookup name = some node) : (name, node) ∈ entries := by
  rcases List.lookup_eq_some_iff.mp h with ⟨before, behind, hEntries, _⟩
  rw [hEntries]
  exact List.mem_append_right before (List.mem_cons_self ..)

theorem IsSound.of_at? {tree node : Node} (hTree : tree.IsSound) {location : Location}
    (h : tree.at? location = some node) : node.IsSound := by
  induction location generalizing tree with
  | nil =>
      rw [at?_nil] at h
      cases h
      exact hTree
  | cons name names ih =>
      rcases at?_cons_eq_some h with ⟨entries, child, rfl, hChild, hNode⟩
      cases hTree with
      | directory ascending hNames hNodes =>
          exact ih (hNodes (name, child) (mem_of_lookup hChild)) hNode

theorem IsSound.isFileName_of_mem {tree node : Node} (hTree : tree.IsSound) {location : Location}
    (h : tree.at? location = some node) : ∀ name ∈ location, IsFileName name := by
  induction location generalizing tree with
  | nil => exact fun _ hName => absurd hName List.not_mem_nil
  | cons first location ih =>
      rcases at?_cons_eq_some h with ⟨entries, child, rfl, hChild, hNode⟩
      cases hTree with
      | directory ascending hNames hNodes =>
          have hEntry := mem_of_lookup hChild
          intro name hName
          rcases List.mem_cons.mp hName with rfl | hMem
          · exact hNames (name, child) hEntry
          · exact ih (hNodes (first, child) hEntry) hNode name hMem

theorem key_of_mem_putEntry {name : Name} {node : Node} {entries : Entries}
    {entry : Name × Node} (h : entry ∈ putEntry name node entries) :
    entry = (name, node) ∨ entry ∈ entries := by
  induction entries with
  | nil => exact Or.inl (List.mem_singleton.mp h)
  | cons head rest ih =>
      obtain ⟨name', node'⟩ := head
      unfold putEntry at h
      split at h
      · rcases List.mem_cons.mp h with hEq | hMem
        · exact Or.inl hEq
        · exact Or.inr hMem
      · split at h
        · rcases List.mem_cons.mp h with hEq | hMem
          · exact Or.inr (hEq ▸ List.mem_cons_self ..)
          · rcases ih hMem with hEq | hRest
            · exact Or.inl hEq
            · exact Or.inr (List.mem_cons_of_mem _ hRest)
        · rcases List.mem_cons.mp h with hEq | hMem
          · exact Or.inl hEq
          · exact Or.inr (List.mem_cons_of_mem _ hMem)

theorem IsSound.putEntry {entries : Entries} (h : (Node.directory entries).IsSound) {name : Name}
    (hName : IsFileName name) {node : Node} (hNode : node.IsSound) :
    (Node.directory (putEntry name node entries)).IsSound := by
  cases h with
  | directory ascending hNames hNodes =>
      constructor
      · rw [putEntry_eq_setAscending]
        exact SortedMap.pairwise_setAscending name node ascending
      · intro entry hEntry
        rcases key_of_mem_putEntry hEntry with rfl | hMem
        · exact hName
        · exact hNames entry hMem
      · intro entry hEntry
        rcases key_of_mem_putEntry hEntry with rfl | hMem
        · exact hNode
        · exact hNodes entry hMem

theorem IsSound.put {tree : Node} (h : tree.IsSound) {name : Name} (hName : IsFileName name)
    (content : Bytes) (location : Location) :
    (tree.put location name (.file content)).IsSound := by
  induction location generalizing tree with
  | nil =>
      cases tree with
      | file old => exact h
      | link target => exact h
      | directory entries => exact h.putEntry hName (.file content)
  | cons first location ih =>
      cases tree with
      | file old => exact h
      | link target => exact h
      | directory entries =>
          cases hChild : entries.lookup first with
          | none =>
              rw [put_directory_cons_of_none hChild]
              exact h
          | some child =>
              rw [put_directory_cons hChild]
              have hMem := mem_of_lookup hChild
              have hSelf := h
              cases hSelf with
              | directory ascending hNames hNodes =>
                  exact h.putEntry (hNames (first, child) hMem) (ih (hNodes (first, child) hMem))

/-!
# Checking a tree
-/

mutual

def checksSound : Node → Bool
  | .file _ => true
  | .link _ => true
  | .directory entries => decide (entries.Pairwise fun a b => a.1 < b.1) && checksEntries entries
termination_by structural node => node

def checksEntries : Entries → Bool
  | [] => true
  | (name, node) :: entries => decide (IsFileName name) && checksSound node && checksEntries entries
termination_by structural entries => entries

end

mutual

theorem checksSound_iff (node : Node) : checksSound node = true ↔ node.IsSound := by
  cases node with
  | file content => exact ⟨fun _ => .file content, fun _ => rfl⟩
  | link target => exact ⟨fun _ => .link target, fun _ => rfl⟩
  | directory entries =>
      unfold checksSound
      rw [Bool.and_eq_true, decide_eq_true_eq, checksEntries_iff entries]
      constructor
      · exact fun h => .directory h.1 (fun entry hEntry => (h.2 entry hEntry).1)
          fun entry hEntry => (h.2 entry hEntry).2
      · intro h
        cases h with
        | directory ascending hNames hNodes =>
            exact ⟨ascending, fun entry hEntry => ⟨hNames entry hEntry, hNodes entry hEntry⟩⟩
termination_by structural node

theorem checksEntries_iff (entries : Entries) :
    checksEntries entries = true ↔
      ∀ entry ∈ entries, IsFileName entry.1 ∧ entry.2.IsSound := by
  cases entries with
  | nil => simp [checksEntries]
  | cons head rest =>
      obtain ⟨name, node⟩ := head
      unfold checksEntries
      rw [Bool.and_eq_true, Bool.and_eq_true, decide_eq_true_eq, checksSound_iff node,
        checksEntries_iff rest, List.forall_mem_cons]
termination_by structural entries

end

instance (node : Node) : Decidable node.IsSound :=
  decidable_of_iff (checksSound node = true) (checksSound_iff node)

end Node

theorem Disk.isSound_iff {disk : Disk} :
    disk.IsSound ↔ disk.top.IsSound ∧ (disk.top.entriesAt? disk.cwd).isSome = true := by
  rw [Node.isSome_entriesAt?_iff]
  exact ⟨fun h => ⟨h.top, h.cwd⟩, fun h => ⟨h.1, h.2⟩⟩

instance (disk : Disk) : Decidable disk.IsSound :=
  decidable_of_iff _ Disk.isSound_iff.symm

end FileTree
end CatalogAudit
