import CatalogAudit.Fault
import CatalogAudit.FileTree.Resolve
import CatalogAudit.Proofs.FileTree.Put
import CatalogAudit.Proofs.Text.Utf8

/-!
# Reading what has been written

A path is followed through directories and links only, and a write changes none of these but for
what is in them. A path that led to the place of the file before the write therefore leads to the
file afterwards, through the same links.
-/

namespace CatalogAudit
namespace FileTree

open CatalogAudit.Path (slash dot)
open Utf8 (Bytes)

/-!
# One part of a path

A part is passed over, leads up, cannot be asked for, or is looked up in the directory.
-/

structure IsEntryName (part : Name) : Prop where
  notSkipped : ¬(part = [] ∨ part = [dot])
  notUp : part ≠ [dot, dot]
  short : part.length ≤ maxNameLength

section OnePart

variable {access : Access} {top : Node} {last : Bool} {jump : Jump} {location : Location}
  {part : Name} {parts : List Name}

theorem follow_nil : follow access top last jump location [] =
    match top.at? location with
    | some node => .ok (.present location node)
    | none => .error .notFound :=
  rfl

theorem follow_skipped (h : part = [] ∨ part = [dot]) :
    follow access top last jump location (part :: parts) =
      follow access top last jump location parts := by
  rw [follow, if_pos h]

theorem follow_up :
    follow access top last jump location ([dot, dot] :: parts) =
      follow access top last jump location.dropLast parts := by
  rw [follow, if_neg (by decide), if_pos rfl]

theorem follow_long (hSkip : ¬(part = [] ∨ part = [dot])) (hUp : part ≠ [dot, dot])
    (hLong : maxNameLength < part.length ∨ access (location ++ [part]) parts = false) :
    follow access top last jump location (part :: parts) = .error .nameTooLong := by
  rw [follow, if_neg hSkip, if_neg hUp, if_pos hLong]

theorem follow_entry (h : IsEntryName part) (hAccess : access (location ++ [part]) parts = true) :
    follow access top last jump location (part :: parts) =
      match top.at? (location ++ [part]) with
      | none => if parts = [] then .ok (.absent location part) else .error .notFound
      | some (.file content) =>
          if parts = [] then .ok (.present (location ++ [part]) (.file content))
          else .error .notDirectory
      | some (.directory _) => follow access top last jump (location ++ [part]) parts
      | some (.link target) =>
          if parts = [] ∧ !last then .ok (.present (location ++ [part]) (.link target))
          else
            jump (if Path.isAbsolute target then [] else location)
              (Path.pieces target ++ parts) := by
  have hShort : ¬(maxNameLength < part.length ∨ access (location ++ [part]) parts = false) := by
    simp [hAccess, h.short]
  exact (if_neg h.notSkipped).trans ((if_neg h.notUp).trans (if_neg hShort))

theorem name_cases (part : Name) :
    (part = [] ∨ part = [dot]) ∨ part = [dot, dot] ∨
      (¬(part = [] ∨ part = [dot]) ∧ part ≠ [dot, dot] ∧ maxNameLength < part.length) ∨
      IsEntryName part := by
  by_cases hSkip : part = [] ∨ part = [dot]
  · exact Or.inl hSkip
  · by_cases hUp : part = [dot, dot]
    · exact Or.inr (Or.inl hUp)
    · by_cases hLong : maxNameLength < part.length
      · exact Or.inr (Or.inr (Or.inl ⟨hSkip, hUp, hLong⟩))
      · exact Or.inr (Or.inr (Or.inr ⟨hSkip, hUp, Nat.not_lt.mp hLong⟩))

theorem part_cases (access : Access) (location : Location) (part : Name) (parts : List Name) :
    (part = [] ∨ part = [dot]) ∨ part = [dot, dot] ∨
      (¬(part = [] ∨ part = [dot]) ∧ part ≠ [dot, dot] ∧
        (maxNameLength < part.length ∨ access (location ++ [part]) parts = false)) ∨
      IsEntryName part ∧ access (location ++ [part]) parts = true := by
  rcases name_cases part with hSkip | hUp | ⟨hSkip, hUp, hLong⟩ | hEntry
  · exact Or.inl hSkip
  · exact Or.inr (Or.inl hUp)
  · exact Or.inr (Or.inr (Or.inl ⟨hSkip, hUp, Or.inl hLong⟩))
  · cases hAccess : access (location ++ [part]) parts with
    | false => exact Or.inr (Or.inr (Or.inl ⟨hEntry.notSkipped, hEntry.notUp, Or.inr rfl⟩))
    | true => exact Or.inr (Or.inr (Or.inr ⟨hEntry, rfl⟩))

/-- How a path is followed past its first part if it leads somewhere. -/
inductive Advance (access : Access) (top : Node) (last : Bool) (jump : Jump) (location : Location)
    (part : Name) (parts : List Name) (target : Target) : Prop
  | skipped (hSkip : part = [] ∨ part = [dot])
      (hRest : follow access top last jump location parts = .ok target)
  | up (hUp : part = [dot, dot])
      (hRest : follow access top last jump location.dropLast parts = .ok target)
  | absent (hEntry : IsEntryName part) (hAccess : access (location ++ [part]) parts = true)
      (hNode : top.at? (location ++ [part]) = none) (hLast : parts = [])
      (hTarget : target = .absent location part)
  | file (hEntry : IsEntryName part) (hAccess : access (location ++ [part]) parts = true)
      (content : Bytes) (hNode : top.at? (location ++ [part]) = some (.file content))
      (hLast : parts = []) (hTarget : target = .present (location ++ [part]) (.file content))
  | directory (hEntry : IsEntryName part) (hAccess : access (location ++ [part]) parts = true)
      (entries : Entries) (hNode : top.at? (location ++ [part]) = some (.directory entries))
      (hRest : follow access top last jump (location ++ [part]) parts = .ok target)
  | stop (hEntry : IsEntryName part) (hAccess : access (location ++ [part]) parts = true)
      (text : Path) (hNode : top.at? (location ++ [part]) = some (.link text))
      (hLast : parts = [] ∧ !last) (hTarget : target = .present (location ++ [part]) (.link text))
  | jump (hEntry : IsEntryName part) (hAccess : access (location ++ [part]) parts = true)
      (text : Path) (hNode : top.at? (location ++ [part]) = some (.link text))
      (hLast : ¬(parts = [] ∧ !last))
      (hRest : jump (if Path.isAbsolute text then [] else location) (Path.pieces text ++ parts) =
        .ok target)

theorem advance_of_follow {target : Target}
    (h : follow access top last jump location (part :: parts) = .ok target) :
    Advance access top last jump location part parts target := by
  rcases part_cases access location part parts with
    hSkip | hUp | ⟨hSkip, hUp, hLong⟩ | ⟨hEntry, hAccess⟩
  · rw [follow_skipped hSkip] at h
    exact .skipped hSkip h
  · subst hUp
    rw [follow_up] at h
    exact .up rfl h
  · rw [follow_long hSkip hUp hLong] at h
    cases h
  · rw [follow_entry hEntry hAccess] at h
    cases hNode : top.at? (location ++ [part]) with
    | none =>
        simp only [hNode] at h
        split at h
        · rename_i hLast
          cases h
          exact .absent hEntry hAccess hNode hLast rfl
        · cases h
    | some node =>
        cases node with
        | file content =>
            simp only [hNode] at h
            split at h
            · rename_i hLast
              cases h
              exact .file hEntry hAccess content hNode hLast rfl
            · cases h
        | directory entries =>
            simp only [hNode] at h
            exact .directory hEntry hAccess entries hNode h
        | link text =>
            simp only [hNode] at h
            split at h
            · rename_i hLast
              cases h
              exact .stop hEntry hAccess text hNode hLast rfl
            · rename_i hLast
              exact .jump hEntry hAccess text hNode hLast h

end OnePart

/-!
# What a followed path leads to
-/

/-- The target says what is in the tree. -/
def Target.IsIn (top : Node) : Target → Prop
  | .present location node => top.at? location = some node
  | .absent directory name => top.at? (directory ++ [name]) = none

theorem isIn_of_follow {access : Access} {top : Node} {last : Bool} {jump : Jump} {target : Target}
    (hJump : ∀ location parts, jump location parts = .ok target → target.IsIn top)
    {location : Location} {parts : List Name}
    (h : follow access top last jump location parts = .ok target) : target.IsIn top := by
  induction parts generalizing location with
  | nil =>
      rw [follow_nil] at h
      cases hNode : top.at? location with
      | none => rw [hNode] at h; cases h
      | some node =>
          rw [hNode] at h
          cases h
          exact hNode
  | cons part parts ih =>
      cases advance_of_follow h with
      | skipped _ hRest => exact ih hRest
      | up _ hRest => exact ih hRest
      | absent _ _ hNode _ hTarget =>
          subst hTarget
          exact hNode
      | file _ _ content hNode _ hTarget =>
          subst hTarget
          exact hNode
      | directory _ _ entries _ hRest => exact ih hRest
      | stop _ _ text hNode _ hTarget =>
          subst hTarget
          exact hNode
      | jump _ _ text _ _ hRest => exact hJump _ _ hRest

theorem isIn_of_followLinks {access : Access} {top : Node} {last : Bool} {links : Nat}
    {target : Target} {location : Location} {parts : List Name}
    (h : followLinks access top last links location parts = .ok target) : target.IsIn top := by
  induction links generalizing location parts with
  | zero =>
      apply isIn_of_follow _ h
      intro location parts hError
      cases hError
  | succ links ih =>
      apply isIn_of_follow _ h
      intro location parts hJump
      exact ih hJump

/-!
# The same path in two trees

Two trees that differ in one file at most send a path to the same place if it leads to the place of
that file in one of them. All that the path meets on its way is a directory or a link in both.
-/

/-- The trees agree but for the content or the presence of one file, which stays if it is there. -/
structure AgreeBeside (place : Location) (top top' : Node) : Prop where
  outlines : ∀ other, other ≠ place →
    (top'.at? other).map Node.outline = (top.at? other).map Node.outline
  before : top.IsFilePlace place
  after : top'.IsFilePlace place
  stays : top'.at? place = none → top.at? place = none

/-- The path ends at the place of a file under this name, whether the file is there or not. -/
def EndsAt (directory : Location) (name : Name) (result : Except Fault Target) : Prop :=
  result = .ok (.absent directory name) ∨
    ∃ content, result = .ok (.present (directory ++ [name]) (.file content))

section Agreement

variable {directory : Location} {name : Name} {access : Access} {top top' : Node} {last : Bool}

theorem outline_of_agreeBeside {place other : Location} (hTops : AgreeBeside place top top')
    {node : Node} (h : top.at? other = some node) (hFile : ∀ content, node ≠ .file content) :
    ∃ node', top'.at? other = some node' ∧ node'.outline = node.outline := by
  have hOther : other ≠ place := by
    intro hEq
    subst hEq
    rcases hTops.before with hNone | ⟨content, hContent⟩
    · rw [hNone] at h
      cases h
    · rw [hContent] at h
      cases h
      exact hFile content rfl
  have hSame := hTops.outlines other hOther
  rw [h, Option.map_some] at hSame
  exact Option.map_eq_some_iff.mp hSame

theorem directory_of_agreeBeside {place other : Location} (hTops : AgreeBeside place top top')
    {entries : Entries} (h : top.at? other = some (.directory entries)) :
    ∃ inner, top'.at? other = some (.directory inner) := by
  rcases outline_of_agreeBeside hTops h (fun _ hEq => by cases hEq) with ⟨node, hNode, hOutline⟩
  rcases Node.directory_of_outline hOutline with ⟨inner, rfl⟩
  exact ⟨inner, hNode⟩

theorem link_of_agreeBeside {place other : Location} (hTops : AgreeBeside place top top')
    {text : Path} (h : top.at? other = some (.link text)) :
    top'.at? other = some (.link text) := by
  rcases outline_of_agreeBeside hTops h (fun _ hEq => by cases hEq) with ⟨node, hNode, hOutline⟩
  rw [hNode, Node.link_of_outline hOutline]

theorem endsAt_present {location : Location} {node : Node}
    (h : EndsAt directory name (.ok (.present location node))) :
    location = directory ++ [name] ∧ ∃ content, node = .file content := by
  rcases h with hAbsent | ⟨content, hPresent⟩
  · cases hAbsent
  · cases hPresent
    exact ⟨rfl, content, rfl⟩

theorem endsAt_absent {location : Location} {part : Name}
    (h : EndsAt directory name (.ok (.absent location part))) :
    location = directory ∧ part = name := by
  rcases h with hAbsent | ⟨content, hPresent⟩
  · cases hAbsent
    exact ⟨rfl, rfl⟩
  · cases hPresent

theorem not_endsAt_error {fault : Fault} : ¬EndsAt directory name (.error fault) := by
  intro h
  rcases h with hAbsent | ⟨content, hPresent⟩
  · cases hAbsent
  · cases hPresent

theorem endsAt_follow_entry {jump : Jump} (hName : IsEntryName name)
    (hAccess : access (directory ++ [name]) [] = true)
    (hPlace : top.IsFilePlace (directory ++ [name])) :
    EndsAt directory name (follow access top last jump directory [name]) := by
  rw [follow_entry hName hAccess]
  rcases hPlace with hNone | ⟨content, hFile⟩
  · rw [hNone]
    exact Or.inl rfl
  · rw [hFile]
    exact Or.inr ⟨content, rfl⟩

theorem eq_of_endsAt_follow {jump : Jump} {location : Location} {part : Name} {parts : List Name}
    (hEntry : IsEntryName part) (hAccess : access (location ++ [part]) parts = true)
    (hPlace : top.IsFilePlace (location ++ [part]))
    (h : EndsAt directory name (follow access top last jump location (part :: parts))) :
    location = directory ∧ part = name ∧ parts = [] := by
  rw [follow_entry hEntry hAccess] at h
  by_cases hLast : parts = []
  · rcases hPlace with hNone | ⟨content, hFile⟩
    · rw [hNone] at h
      simp only [if_pos hLast] at h
      rcases endsAt_absent h with ⟨hLocation, hPart⟩
      exact ⟨hLocation, hPart, hLast⟩
    · rw [hFile] at h
      simp only [if_pos hLast] at h
      rcases List.append_inj' (endsAt_present h).1 rfl with ⟨hLocation, hPart⟩
      exact ⟨hLocation, List.singleton_inj.mp hPart, hLast⟩
  · rcases hPlace with hNone | ⟨content, hFile⟩
    · rw [hNone] at h
      simp only [if_neg hLast] at h
      exact absurd h not_endsAt_error
    · rw [hFile] at h
      simp only [if_neg hLast] at h
      exact absurd h not_endsAt_error

theorem endsAt_follow (hTops : AgreeBeside (directory ++ [name]) top top') {jump jump' : Jump}
    (hJump : ∀ location parts, EndsAt directory name (jump location parts) →
      EndsAt directory name (jump' location parts))
    {location : Location} {parts : List Name}
    (h : EndsAt directory name (follow access top last jump location parts)) :
    EndsAt directory name (follow access top' last jump' location parts) := by
  -- Both trees are walked with the same parts. Only what stands at the last part can be the file, so
  -- every other entry is alike in both, and a link hands over to the jumps.
  induction parts generalizing location with
  | nil =>
      rw [follow_nil] at h
      cases hNode : top.at? location with
      | none =>
          rw [hNode] at h
          exact absurd h not_endsAt_error
      | some node =>
          rw [hNode] at h
          rcases endsAt_present h with ⟨rfl, content, rfl⟩
          rcases hTops.after with hNone | ⟨content', hFile⟩
          · rw [hTops.stays hNone] at hNode
            cases hNode
          · rw [follow_nil, hFile]
            exact Or.inr ⟨content', rfl⟩
  | cons part parts ih =>
      rcases part_cases access location part parts with
        hSkip | rfl | ⟨hSkip, hUp, hLong⟩ | ⟨hEntry, hAccess⟩
      · rw [follow_skipped hSkip] at h ⊢
        exact ih h
      · rw [follow_up] at h ⊢
        exact ih h
      · rw [follow_long hSkip hUp hLong] at h
        exact absurd h not_endsAt_error
      · cases hNode : top.at? (location ++ [part]) with
        | none =>
            rcases eq_of_endsAt_follow hEntry hAccess (Or.inl hNode) h with ⟨rfl, rfl, rfl⟩
            exact endsAt_follow_entry hEntry hAccess hTops.after
        | some node =>
            cases node with
            | file content =>
                have hPlace : top.IsFilePlace (location ++ [part]) := Or.inr ⟨content, hNode⟩
                rcases eq_of_endsAt_follow hEntry hAccess hPlace h with ⟨rfl, rfl, rfl⟩
                exact endsAt_follow_entry hEntry hAccess hTops.after
            | directory entries =>
                rcases directory_of_agreeBeside hTops hNode with ⟨inner, hInner⟩
                rw [follow_entry hEntry hAccess, hNode] at h
                rw [follow_entry hEntry hAccess, hInner]
                exact ih h
            | link text =>
                rw [follow_entry hEntry hAccess, hNode] at h
                rw [follow_entry hEntry hAccess, link_of_agreeBeside hTops hNode]
                by_cases hLast : parts = [] ∧ !last
                · simp only [if_pos hLast] at h
                  rcases (endsAt_present h).2 with ⟨content, hFile⟩
                  cases hFile
                · simp only [if_neg hLast] at h ⊢
                  exact hJump _ _ h

theorem endsAt_followLinks (hTops : AgreeBeside (directory ++ [name]) top top') {links : Nat}
    {location : Location} {parts : List Name}
    (h : EndsAt directory name (followLinks access top last links location parts)) :
    EndsAt directory name (followLinks access top' last links location parts) := by
  induction links generalizing location parts with
  | zero => exact endsAt_follow hTops (fun _ _ hError => hError) h
  | succ links ih => exact endsAt_follow hTops (fun _ _ hJump => ih hJump) h

end Agreement

theorem agreeBeside_put {tree : Node} {directory : Location} {name : Name}
    (hPlace : tree.IsFilePlace (directory ++ [name])) (content : Bytes) :
    AgreeBeside (directory ++ [name]) tree (tree.put directory name (.file content)) := by
  have hAfter := Node.at?_put_filePlace hPlace content
  constructor
  · exact fun other hOther => Node.outline_at?_put hPlace content hOther
  · exact hPlace
  · rcases hAfter with hFile | ⟨_, hNone⟩
    · exact Or.inr ⟨content, hFile⟩
    · exact Or.inl hNone
  · intro hGone
    rcases hAfter with hFile | ⟨hNone, _⟩
    · rw [hFile] at hGone
      cases hGone
    · exact hNone

/-!
# Writing, then reading
-/

namespace Disk

theorem isIn_of_locate {disk : Disk} {last : Bool} {path : Path} {target : Target}
    (h : disk.locate last path = .ok target) : target.IsIn disk.top := by
  rcases bind_eq_ok.mp h with ⟨_, _, hFollow⟩
  exact isIn_of_followLinks hFollow

/-- A write that succeeds puts the file where the path ends, in a directory. -/
theorem write_eq_ok {disk disk' : Disk} {path : Path} {content : Bytes}
    (h : disk.write path content = .ok disk') :
    ∃ directory name, disk.top.IsDirectoryAt directory ∧
      EndsAt directory name (disk.locate true path) ∧
      disk' = { disk with top := disk.top.put directory name (.file content) } := by
  unfold write at h
  split at h
  · simp only [bind_eq_ok] at h
    rcases h with ⟨_, _, _, _, hError⟩
    cases hError
  · simp only [bind_eq_ok] at h
    rcases h with ⟨target, hTarget, h⟩
    cases target with
    | absent directory name =>
        cases hEntries : disk.top.entriesAt? directory with
        | none =>
            simp only [hEntries] at h
            cases h
        | some entries =>
            simp only [hEntries] at h
            cases h
            exact ⟨directory, name, ⟨entries, Node.entriesAt?_eq_some.mp hEntries⟩, Or.inl hTarget,
              rfl⟩
    | present location node =>
        cases node with
        | link text => cases h
        | directory entries => cases h
        | file old =>
            cases hReversed : location.reverse with
            | nil =>
                simp only [hReversed] at h
                cases h
            | cons name rest =>
                have hLocation : location = rest.reverse ++ [name] := by
                  rw [← List.reverse_cons, ← hReversed, List.reverse_reverse]
                simp only [hReversed] at h
                cases h
                rw [hLocation] at hTarget
                exact ⟨rest.reverse, name, Node.at?_of_at?_snoc (isIn_of_locate hTarget),
                  Or.inr ⟨old, hTarget⟩, rfl⟩

theorem write_of_absent {disk : Disk} {path : Path} {directory : Location} {name : Name}
    (hSlash : endsInSlash path = false) (hDirectory : disk.top.IsDirectoryAt directory)
    (h : disk.locate true path = .ok (.absent directory name)) (content : Bytes) :
    disk.write path content =
      .ok { disk with top := disk.top.put directory name (.file content) } := by
  rcases hDirectory with ⟨entries, hEntries⟩
  have hInside := Node.entriesAt?_eq_some.mpr hEntries
  unfold write
  rw [hSlash, h]
  simp only [Bool.false_eq_true, if_false, bind, Except.bind, hInside]
  rfl

theorem isFilePlace_of_endsAt {disk : Disk} {path : Path} {directory : Location} {name : Name}
    (h : EndsAt directory name (disk.locate true path)) :
    disk.top.IsFilePlace (directory ++ [name]) := by
  rcases h with hAbsent | ⟨content, hPresent⟩
  · exact Or.inl (isIn_of_locate hAbsent)
  · exact Or.inr ⟨content, isIn_of_locate hPresent⟩

theorem endsAt_locate_put {disk : Disk} {path : Path} {directory : Location} {name : Name}
    (h : EndsAt directory name (disk.locate true path)) (content : Bytes) :
    EndsAt directory name
      ({ disk with top := disk.top.put directory name (.file content) }.locate true path) := by
  have hTops := agreeBeside_put (isFilePlace_of_endsAt h) content
  unfold locate at h ⊢
  cases hPath : checkPath path with
  | error fault =>
      rw [hPath] at h
      exact absurd h not_endsAt_error
  | ok _ =>
      rw [hPath] at h
      exact endsAt_followLinks hTops h

theorem readBytes_write {disk disk' : Disk} {path : Path} {content : Bytes}
    (h : disk.write path content = .ok disk') : disk'.readBytes path = .ok content := by
  rcases write_eq_ok h with ⟨directory, name, ⟨entries, hEntries⟩, hEnds, rfl⟩
  have hFile := Node.at?_put_self hEntries name (.file content)
  unfold readBytes resolve
  rcases endsAt_locate_put hEnds content with hAbsent | ⟨content', hPresent⟩
  · cases hFile.symm.trans (isIn_of_locate hAbsent)
  · rw [hPresent]
    cases hFile.symm.trans (isIn_of_locate hPresent)
    rfl

theorem readText_of_readBytes {disk : Disk} {path : Path} {text : String}
    (h : disk.readBytes path = .ok (bytesOf text)) : disk.readText path = .ok text := by
  unfold readText
  rw [h]
  simp only [bind, Except.bind, textOf?_bytesOf]
  rfl

end Disk
end FileTree
end CatalogAudit
