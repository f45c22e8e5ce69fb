import CatalogAudit.Proofs.FileTree.Changes

/-!
# What is asked on the way

Whoever follows a path asks for one node after the other. A file whose place is not among those that
are asked for has no part in the answer. With it or without it the path leads to the same node, or
fails with the same fault.
-/

namespace CatalogAudit
namespace FileTree

open CatalogAudit.Path (slash dot)
open Utf8 (Bytes)

/-!
# Asked locations
-/

abbrev Inquiry := Location → List Name → List Location

def asked (top : Node) (jump : Inquiry) : Location → List Name → List Location
  | _, [] => []
  | location, part :: parts =>
      if part = [] ∨ part = [dot] then asked top jump location parts
      else if part = [dot, dot] then asked top jump location.dropLast parts
      else if maxNameLength < part.length then []
      else
        (location ++ [part]) ::
          match top.at? (location ++ [part]) with
          | none => []
          | some (.file _) => []
          | some (.directory _) => asked top jump (location ++ [part]) parts
          | some (.link target) =>
              jump (if Path.isAbsolute target then [] else location) (Path.pieces target ++ parts)

def askedLinks (top : Node) : Nat → Location → List Name → List Location
  | 0 => asked top fun _ _ => []
  | links + 1 => asked top (askedLinks top links)

/-- The locations that are asked for on the way to the end of a path. -/
def Disk.asked (disk : Disk) (path : Path) : List Location :=
  match checkPath path with
  | .ok () => askedLinks disk.top maxLinks (disk.startOf path) (Path.pieces path)
  | .error _ => []

section OnePart

variable {top : Node} {jump : Inquiry} {location : Location} {part : Name} {parts : List Name}

theorem asked_skipped (h : part = [] ∨ part = [dot]) :
    asked top jump location (part :: parts) = asked top jump location parts := by
  rw [asked, if_pos h]

theorem asked_up :
    asked top jump location ([dot, dot] :: parts) = asked top jump location.dropLast parts := by
  rw [asked, if_neg (by decide), if_pos rfl]

theorem asked_long (hSkip : ¬(part = [] ∨ part = [dot])) (hUp : part ≠ [dot, dot])
    (hLong : maxNameLength < part.length) : asked top jump location (part :: parts) = [] := by
  rw [asked, if_neg hSkip, if_neg hUp, if_pos hLong]

theorem asked_entry (h : IsEntryName part) :
    asked top jump location (part :: parts) =
      (location ++ [part]) ::
        match top.at? (location ++ [part]) with
        | none => []
        | some (.file _) => []
        | some (.directory _) => asked top jump (location ++ [part]) parts
        | some (.link target) =>
            jump (if Path.isAbsolute target then [] else location)
              (Path.pieces target ++ parts) := by
  have hShort : ¬maxNameLength < part.length := Nat.not_lt.mpr h.short
  exact (if_neg h.notSkipped).trans ((if_neg h.notUp).trans (if_neg hShort))

theorem asked_entry_of_isFilePlace (h : IsEntryName part)
    (hPlace : top.IsFilePlace (location ++ [part])) :
    asked top jump location (part :: parts) = [location ++ [part]] := by
  rw [asked_entry h]
  rcases hPlace with hNone | ⟨content, hFile⟩
  · rw [hNone]
  · rw [hFile]

end OnePart

/-!
# The same answer
-/

/-- Two answers that differ at most in what is in a directory. -/
inductive SameAnswer : Except Fault Target → Except Fault Target → Prop where
  | error (fault : Fault) : SameAnswer (.error fault) (.error fault)
  | absent (inside : Location) (free : Name) :
      SameAnswer (.ok (.absent inside free)) (.ok (.absent inside free))
  | file (location : Location) (content : Bytes) :
      SameAnswer (.ok (.present location (.file content))) (.ok (.present location (.file content)))
  | directory (location : Location) (entries entries' : Entries) :
      SameAnswer (.ok (.present location (.directory entries)))
        (.ok (.present location (.directory entries')))

section Agreement

variable {place : Location} {top top' : Node}

theorem isFilePlace_of_agreeBeside (hTops : AgreeBeside place top top') {location : Location}
    (h : top.IsFilePlace location) : top'.IsFilePlace location := by
  by_cases hOther : location = place
  · rw [hOther]
    exact hTops.after
  · rcases h with hNone | ⟨content, hFile⟩
    · exact Or.inl (at?_eq_none_of_agreeBeside hTops hOther hNone)
    · exact Or.inr ⟨content, file_of_agreeBeside hTops hOther hFile⟩

theorem sameAnswer_follow (hTops : AgreeBeside place top top') {jump jump' : Jump}
    {inquiry : Inquiry}
    (hJump : ∀ location parts, top.IsDirectoryAt location → place ∉ inquiry location parts →
      SameAnswer (jump location parts) (jump' location parts))
    {location : Location} (hStart : top.IsDirectoryAt location) {parts : List Name}
    (hPlace : place ∉ asked top inquiry location parts) :
    SameAnswer (follow anyAccess top true jump location parts)
      (follow anyAccess top' true jump' location parts) := by
  induction parts generalizing location with
  | nil =>
      rcases hStart with ⟨entries, hEntries⟩
      rcases directory_of_agreeBeside hTops hEntries with ⟨inner, hInner⟩
      rw [follow_nil, follow_nil, hEntries, hInner]
      exact .directory location entries inner
  | cons part parts ih =>
      rcases name_cases part with hSkip | rfl | ⟨hSkip, hUp, hLong⟩ | hEntry
      · rw [asked_skipped hSkip] at hPlace
        rw [follow_skipped hSkip, follow_skipped hSkip]
        exact ih hStart hPlace
      · rw [asked_up] at hPlace
        rw [follow_up, follow_up]
        exact ih (Node.isDirectoryAt_dropLast hStart) hPlace
      · rw [follow_long hSkip hUp (.inl hLong), follow_long hSkip hUp (.inl hLong)]
        exact .error _
      · rw [asked_entry hEntry, List.mem_cons, not_or] at hPlace
        rcases hPlace with ⟨hHere, hBehind⟩
        -- The place is not asked for, so the entry is the same in both trees up to what is in it.
        have hOther : location ++ [part] ≠ place := Ne.symm hHere
        rw [follow_entry hEntry rfl, follow_entry hEntry rfl]
        cases hNode : top.at? (location ++ [part]) with
        | none =>
            rw [at?_eq_none_of_agreeBeside hTops hOther hNode]
            by_cases hLast : parts = []
            · simp only [if_pos hLast]
              exact .absent location part
            · simp only [if_neg hLast]
              exact .error _
        | some node =>
            cases node with
            | file content =>
                rw [file_of_agreeBeside hTops hOther hNode]
                by_cases hLast : parts = []
                · simp only [if_pos hLast]
                  exact .file _ content
                · simp only [if_neg hLast]
                  exact .error _
            | directory entries =>
                rcases directory_of_agreeBeside hTops hNode with ⟨inner, hInner⟩
                rw [hNode] at hBehind
                rw [hInner]
                exact ih ⟨entries, hNode⟩ hBehind
            | link text =>
                rw [hNode] at hBehind
                rw [link_of_agreeBeside hTops hNode]
                simp only [Bool.not_true, Bool.false_eq_true, and_false, if_false]
                exact hJump _ _ (isDirectoryAt_start hStart text) hBehind

theorem sameAnswer_followLinks (hTops : AgreeBeside place top top') {links : Nat}
    {location : Location} (hStart : top.IsDirectoryAt location) {parts : List Name}
    (hPlace : place ∉ askedLinks top links location parts) :
    SameAnswer (followLinks anyAccess top true links location parts)
      (followLinks anyAccess top' true links location parts) := by
  induction links generalizing location parts with
  | zero => exact sameAnswer_follow hTops (fun _ _ _ _ => .error _) hStart hPlace
  | succ links ih =>
      exact sameAnswer_follow hTops (fun _ _ hDirectory hBehind => ih hDirectory hBehind) hStart
        hPlace

/-!
# The same questions

What is asked for depends on directories and links, so the same is asked with the file and without.
-/

theorem asked_of_agreeBeside (hTops : AgreeBeside place top top') {jump jump' : Inquiry}
    (hJump : ∀ location parts, jump' location parts = jump location parts) (location : Location)
    (parts : List Name) :
    asked top' jump' location parts = asked top jump location parts := by
  induction parts generalizing location with
  | nil => rfl
  | cons part parts ih =>
      rcases name_cases part with hSkip | rfl | ⟨hSkip, hUp, hLong⟩ | hEntry
      · rw [asked_skipped hSkip, asked_skipped hSkip, ih]
      · rw [asked_up, asked_up, ih]
      · rw [asked_long hSkip hUp hLong, asked_long hSkip hUp hLong]
      · have hFilePlace : top.IsFilePlace (location ++ [part]) →
            asked top' jump' location (part :: parts) =
              asked top jump location (part :: parts) := by
          intro hPlace
          rw [asked_entry_of_isFilePlace hEntry hPlace,
            asked_entry_of_isFilePlace hEntry (isFilePlace_of_agreeBeside hTops hPlace)]
        cases hNode : top.at? (location ++ [part]) with
        | none => exact hFilePlace (Or.inl hNode)
        | some node =>
            cases node with
            | file content => exact hFilePlace (Or.inr ⟨content, hNode⟩)
            | directory entries =>
                rcases directory_of_agreeBeside hTops hNode with ⟨inner, hInner⟩
                rw [asked_entry hEntry, asked_entry hEntry, hNode, hInner]
                simp only [ih]
            | link text =>
                rw [asked_entry hEntry, asked_entry hEntry, hNode, link_of_agreeBeside hTops hNode]
                simp only [hJump]

theorem askedLinks_of_agreeBeside (hTops : AgreeBeside place top top') (links : Nat)
    (location : Location) (parts : List Name) :
    askedLinks top' links location parts = askedLinks top links location parts := by
  induction links generalizing location parts with
  | zero => exact asked_of_agreeBeside hTops (fun _ _ => rfl) location parts
  | succ links ih => exact asked_of_agreeBeside hTops ih location parts

end Agreement

/-!
# Parts in front

Whatever parts are put behind others, all that is asked for on the way through those in front is
asked for as well.
-/

theorem asked_subset_append {top : Node} {more : List Name} {jump : Inquiry}
    (hJump : ∀ location front, jump location (front ++ [[]]) ⊆ jump location (front ++ more))
    (location : Location) (front : List Name) :
    asked top jump location (front ++ [[]]) ⊆ asked top jump location (front ++ more) := by
  induction front generalizing location with
  | nil =>
      rw [List.nil_append, asked_skipped (Or.inl rfl)]
      exact List.nil_subset _
  | cons part front ih =>
      rw [List.cons_append, List.cons_append]
      rcases name_cases part with hSkip | rfl | ⟨hSkip, hUp, hLong⟩ | hEntry
      · rw [asked_skipped hSkip, asked_skipped hSkip]
        exact ih location
      · rw [asked_up, asked_up]
        exact ih location.dropLast
      · rw [asked_long hSkip hUp hLong]
        exact List.nil_subset _
      · rw [asked_entry hEntry, asked_entry hEntry]
        apply List.cons_subset_cons
        cases top.at? (location ++ [part]) with
        | none => exact List.nil_subset _
        | some node =>
            cases node with
            | file content => exact List.nil_subset _
            | directory entries => exact ih (location ++ [part])
            | link text =>
                simp only [← List.append_assoc]
                exact hJump _ _

theorem askedLinks_subset_append {top : Node} (more : List Name) (links : Nat)
    (location : Location) (front : List Name) :
    askedLinks top links location (front ++ [[]]) ⊆
      askedLinks top links location (front ++ more) := by
  induction links generalizing location front with
  | zero => exact asked_subset_append (fun _ _ => List.nil_subset _) location front
  | succ links ih => exact asked_subset_append ih location front

/-!
# The same file put into both trees
-/

theorem agreeBeside_put_put {place directory : Location} {top top' : Node} {name : Name}
    (hTops : AgreeBeside place top top') (hDirectory : top.IsDirectoryAt directory)
    (hFree : top.IsFilePlace (directory ++ [name])) (content : Bytes) :
    AgreeBeside place (top.put directory name (.file content))
      (top'.put directory name (.file content)) := by
  have hFree' := isFilePlace_of_agreeBeside hTops hFree
  rcases hDirectory with ⟨entries, hEntries⟩
  rcases directory_of_agreeBeside hTops hEntries with ⟨inner, hInner⟩
  have hSelf := Node.at?_put_self hEntries name (.file content)
  have hSelf' := Node.at?_put_self hInner name (.file content)
  constructor
  case outlines =>
    intro other hOther
    by_cases hNew : other = directory ++ [name]
    · rw [hNew, hSelf, hSelf']
    · rw [Node.outline_at?_put hFree content hNew, Node.outline_at?_put hFree' content hNew,
        hTops.outlines other hOther]
  case before => exact isFilePlace_of_agreeBeside (agreeBeside_put hFree content) hTops.before
  case after => exact isFilePlace_of_agreeBeside (agreeBeside_put hFree' content) hTops.after
  case stays =>
    intro hNone
    by_cases hNew : place = directory ++ [name]
    · rw [hNew, hSelf'] at hNone
      cases hNone
    · have hOutline := Node.outline_at?_put hFree content hNew
      have hOutline' := Node.outline_at?_put hFree' content hNew
      rw [hNone, Option.map_none] at hOutline'
      rw [hTops.stays (Option.map_eq_none_iff.mp hOutline'.symm), Option.map_none] at hOutline
      exact Option.map_eq_none_iff.mp hOutline

/-!
# Paths that end in a slash
-/

section Slash

variable {top : Node} {last : Bool} {directory : Location} {name : Name}

/-- A path with a slash at its end leads to no file, and to no name that is free. -/
theorem not_endsAt_follow_empty {jump : Jump}
    (hJump : ∀ location front, top.IsDirectoryAt location →
      ¬EndsAt directory name (jump location (front ++ [[]])))
    {location : Location} (hStart : top.IsDirectoryAt location) (front : List Name) :
    ¬EndsAt directory name (follow anyAccess top last jump location (front ++ [[]])) := by
  induction front generalizing location with
  | nil =>
      rcases hStart with ⟨entries, hEntries⟩
      rw [List.nil_append, follow_skipped (Or.inl rfl), follow_nil, hEntries]
      intro hEnds
      rcases (endsAt_present hEnds).2 with ⟨content, hFile⟩
      cases hFile
  | cons part front ih =>
      rw [List.cons_append]
      rcases name_cases part with hSkip | rfl | ⟨hSkip, hUp, hLong⟩ | hEntry
      · rw [follow_skipped hSkip]
        exact ih hStart
      · rw [follow_up]
        exact ih (Node.isDirectoryAt_dropLast hStart)
      · rw [follow_long hSkip hUp (.inl hLong)]
        exact not_endsAt_error
      · have hBehind : front ++ [[]] ≠ [] := by simp
        rw [follow_entry hEntry rfl]
        cases hNode : top.at? (location ++ [part]) with
        | none =>
            simp only [hBehind, if_false]
            exact not_endsAt_error
        | some node =>
            cases node with
            | file content =>
                simp only [hBehind, if_false]
                exact not_endsAt_error
            | directory entries => exact ih ⟨entries, hNode⟩
            | link text =>
                simp only [hBehind, false_and, if_false, ← List.append_assoc]
                exact hJump _ _ (isDirectoryAt_start hStart text)

theorem not_endsAt_followLinks_empty {links : Nat} {location : Location}
    (hStart : top.IsDirectoryAt location) (front : List Name) :
    ¬EndsAt directory name (followLinks anyAccess top last links location (front ++ [[]])) := by
  induction links generalizing location front with
  | zero => exact not_endsAt_follow_empty (fun _ _ _ => not_endsAt_error) hStart front
  | succ links ih =>
      exact not_endsAt_follow_empty (fun _ front hStart => ih hStart front) hStart front

end Slash

namespace Disk

theorem exists_pieces_of_endsInSlash {path : Path} (h : endsInSlash path = true) :
    ∃ front, Path.pieces path = front ++ [[]] := by
  unfold endsInSlash at h
  split at h
  · rename_i rest hPieces
    exact ⟨rest.reverse, by rw [← List.reverse_cons, ← hPieces, List.reverse_reverse]⟩
  · cases h

theorem endsInSlash_of_endsAt {disk : Disk} (hSound : disk.IsSound) {path : Path}
    {directory : Location} {name : Name} (h : EndsAt directory name (disk.locate true path)) :
    endsInSlash path = false := by
  cases hSlash : endsInSlash path with
  | false => rfl
  | true =>
      rcases exists_pieces_of_endsInSlash hSlash with ⟨front, hPieces⟩
      have hCheck : checkPath path = .ok () := by
        cases hCheck : checkPath path with
        | ok _ => rfl
        | error fault =>
            unfold locate at h
            rw [hCheck] at h
            exact absurd h not_endsAt_error
      rw [locate_of_checkPath hCheck, hPieces] at h
      exact absurd h (not_endsAt_followLinks_empty (isDirectoryAt_startOf hSound path) front)

def partsBefore (path : Path) : List Name :=
  (((Path.pieces path).reverse.dropWhile (· == [])).drop 1).reverse

theorem partsBefore_isPrefix (path : Path) : partsBefore path <+: Path.pieces path := by
  unfold partsBefore
  rw [← List.reverse_suffix, List.reverse_reverse]
  exact (List.drop_suffix 1 _).trans (List.dropWhile_suffix _)

theorem write_of_endsInSlash {path : Path} (hSlash : endsInSlash path = true)
    (hCheck : checkPath path = .ok ()) (disk : Disk) (content : Bytes) :
    disk.write path content =
      (followLinks anyAccess disk.top true maxLinks (disk.startOf path)
        (partsBefore path ++ [[]]) >>= fun _ => .error .isDirectory) := by
  unfold write
  rw [if_pos hSlash, hCheck]
  rfl

theorem not_mem_askedLinks_partsBefore {disk : Disk} {path : Path}
    (hCheck : checkPath path = .ok ()) {place : Location} (h : place ∉ disk.asked path) :
    place ∉ askedLinks disk.top maxLinks (disk.startOf path) (partsBefore path ++ [[]]) := by
  rcases partsBefore_isPrefix path with ⟨more, hMore⟩
  intro hAsked
  apply h
  unfold asked
  rw [hCheck, ← hMore]
  exact askedLinks_subset_append more maxLinks _ _ hAsked

/-!
# The same on two disks
-/

/-- Two changes that fail with the same fault, or else leave related disks. -/
inductive SameChange {ε : Type} (Related : Disk → Disk → Prop) :
    Except ε Disk → Except ε Disk → Prop where
  | error (fault : ε) : SameChange Related (.error fault) (.error fault)
  | ok {changed changed' : Disk} (hRelated : Related changed changed') :
      SameChange Related (.ok changed) (.ok changed')

theorem SameChange.withContext {ε : Type} {Related : Disk → Disk → Prop}
    {result result' : Except ε Disk} (h : SameChange Related result result') (cause : ε → Cause)
    (context : Context) :
    SameChange Related (CatalogAudit.withContext cause context result)
      (CatalogAudit.withContext cause context result') := by
  cases h with
  | error fault => exact .error _
  | ok hRelated => exact .ok hRelated

section Unasked

variable {place : Location} {disk disk' : Disk} (h : disk.ChangedAt place disk')
include h

theorem ChangedAt.asked_eq (path : Path) : disk'.asked path = disk.asked path := by
  unfold asked
  rw [h.startOf_eq]
  cases checkPath path with
  | error fault => rfl
  | ok _ => exact askedLinks_of_agreeBeside h.agree maxLinks (disk.startOf path) (Path.pieces path)

theorem ChangedAt.put {directory : Location} {name : Name}
    (hDirectory : disk.top.IsDirectoryAt directory) (hName : IsFileName name)
    (hFree : disk.top.IsFilePlace (directory ++ [name])) (content : Bytes) :
    ({ disk with top := disk.top.put directory name (.file content) } : Disk).ChangedAt place
      { disk' with top := disk'.top.put directory name (.file content) } := by
  have hFree' := isFilePlace_of_agreeBeside h.agree hFree
  have hDirectory' : disk'.top.IsDirectoryAt directory := by
    rcases hDirectory with ⟨entries, hEntries⟩
    exact directory_of_agreeBeside h.agree hEntries
  have hPut := changedAt_put h.sound hDirectory hName hFree content
  have hPut' := changedAt_put h.sound' hDirectory' hName hFree' content
  constructor
  case sound => exact hPut.sound'
  case sound' => exact hPut'.sound'
  case cwd => exact h.cwd
  case agree => exact agreeBeside_put_put h.agree hDirectory hFree content
  case file => exact hPut'.exists_file h.file

/-!
# Reading
-/

section Reading

variable {path : Path} (hPath : place ∉ disk.asked path)
include hPath

theorem ChangedAt.sameAnswer_locate :
    SameAnswer (disk.locate true path) (disk'.locate true path) := by
  unfold asked at hPath
  cases hCheck : checkPath path with
  | error fault =>
      unfold locate
      rw [hCheck]
      exact .error fault
  | ok _ =>
      rw [hCheck] at hPath
      rw [locate_of_checkPath hCheck, locate_of_checkPath hCheck, h.startOf_eq]
      exact sameAnswer_followLinks h.agree (isDirectoryAt_startOf h.sound path) hPath

theorem ChangedAt.readBytes_eq_of_unasked : disk'.readBytes path = disk.readBytes path := by
  have hSame := h.sameAnswer_locate hPath
  unfold readBytes resolve
  generalize disk.locate true path = result at hSame
  generalize disk'.locate true path = result' at hSame
  cases hSame with
  | error fault => rfl
  | absent inside free => rfl
  | file location content => rfl
  | directory location entries entries' => rfl

theorem ChangedAt.readText_eq_of_unasked : disk'.readText path = disk.readText path := by
  unfold readText
  rw [h.readBytes_eq_of_unasked hPath]

theorem ChangedAt.isFile_eq_of_unasked : disk'.isFile path = disk.isFile path := by
  have hSame := h.sameAnswer_locate hPath
  unfold isFile resolve
  generalize disk.locate true path = result at hSame
  generalize disk'.locate true path = result' at hSame
  cases hSame with
  | error fault => rfl
  | absent inside free => rfl
  | file location content => rfl
  | directory location entries entries' => rfl

theorem ChangedAt.listDirectory_filter_eq {name : Name} (hName : place.getLast? = some name) :
    (disk'.listDirectory path).map (·.filter (· ≠ name)) =
      (disk.listDirectory path).map (·.filter (· ≠ name)) := by
  have hSame := h.sameAnswer_locate hPath
  have hIn : ∀ target, disk.locate true path = .ok target → target.IsIn disk.top :=
    fun _ => isIn_of_locate
  have hIn' : ∀ target, disk'.locate true path = .ok target → target.IsIn disk'.top :=
    fun _ => isIn_of_locate
  unfold listDirectory resolve
  generalize disk.locate true path = result at hSame hIn
  generalize disk'.locate true path = result' at hSame hIn'
  cases hSame with
  | error fault => rfl
  | absent inside free => rfl
  | file location content => rfl
  | directory location entries entries' =>
      have hAt : disk.top.at? location = some (.directory entries) := hIn _ rfl
      have hAt' : disk'.top.at? location = some (.directory entries') := hIn' _ rfl
      have hNames : (entries'.map (·.1)).filter (· ≠ name) =
          (entries.map (·.1)).filter (· ≠ name) := by
        apply ((Node.pairwise_names h.sound'.top hAt').filter _).eq_of_mem_iff
          ((Node.pairwise_names h.sound.top hAt).filter _)
        intro other
        rw [List.mem_filter, List.mem_filter, decide_eq_true_eq]
        apply and_congr_left
        intro hOther
        have hElsewhere : location ++ [other] ≠ place := by
          rintro rfl
          rw [List.getLast?_concat] at hName
          exact hOther (Option.some.inj hName)
        have hThere := congrArg Option.isSome (h.agree.outlines _ hElsewhere)
        rw [Option.isSome_map, Option.isSome_map] at hThere
        rw [Node.mem_names h.sound'.top hAt', Node.mem_names h.sound.top hAt, hThere]
      exact congrArg Except.ok hNames

end Reading

/-!
# Writing
-/

section Writing

variable {path : Path} {content : Bytes} {Related : Disk → Disk → Prop}
  (hPut : ∀ directory name, disk.top.IsDirectoryAt directory → IsFileName name →
    disk.top.IsFilePlace (directory ++ [name]) →
      Related { disk with top := disk.top.put directory name (.file content) }
        { disk' with top := disk'.top.put directory name (.file content) })
include hPut

theorem ChangedAt.sameChange_of_endsAt {directory : Location} {name : Name}
    (hEnds : EndsAt directory name (disk.locate true path))
    (hEnds' : EndsAt directory name (disk'.locate true path)) :
    SameChange Related (disk.write path content) (disk'.write path content) := by
  have hSlash := endsInSlash_of_endsAt h.sound hEnds
  rcases directory_of_endsAt h.sound hEnds with ⟨hDirectory, hName⟩
  rw [write_of_endsAt hSlash hDirectory hEnds,
    write_of_endsAt hSlash (directory_of_endsAt h.sound' hEnds').1 hEnds']
  exact .ok (hPut directory name hDirectory hName (isFilePlace_of_endsAt hEnds))

theorem ChangedAt.sameChange_of_unasked (hPath : place ∉ disk.asked path) :
    SameChange Related (disk.write path content) (disk'.write path content) := by
  cases hSlash : endsInSlash path with
  | true =>
      cases hCheck : checkPath path with
      | error fault =>
          unfold write
          rw [if_pos hSlash, if_pos hSlash, hCheck]
          exact .error fault
      | ok _ =>
          have hSame := sameAnswer_followLinks h.agree (isDirectoryAt_startOf h.sound path)
            (not_mem_askedLinks_partsBefore hCheck hPath)
          rw [write_of_endsInSlash hSlash hCheck, write_of_endsInSlash hSlash hCheck, h.startOf_eq]
          generalize followLinks anyAccess disk.top true maxLinks _ _ = result at hSame
          generalize followLinks anyAccess disk'.top true maxLinks _ _ = result' at hSame
          cases hSame with
          | error fault => exact .error fault
          | absent inside free => exact .error Fault.isDirectory
          | file location content => exact .error Fault.isDirectory
          | directory location entries entries' => exact .error Fault.isDirectory
  | false =>
      have hSame := h.sameAnswer_locate hPath
      generalize hResult : disk.locate true path = result at hSame
      generalize hResult' : disk'.locate true path = result' at hSame
      cases hSame with
      | error fault =>
          unfold write
          rw [hSlash, hResult, hResult']
          exact .error fault
      | absent inside free =>
          exact h.sameChange_of_endsAt hPut (Or.inl hResult) (Or.inl hResult')
      | file location old =>
          rcases h.sound.exists_snoc (isIn_of_locate hResult) with ⟨directory, name, rfl⟩
          exact h.sameChange_of_endsAt hPut (Or.inr ⟨old, hResult⟩) (Or.inr ⟨old, hResult'⟩)
      | directory location entries entries' =>
          unfold write
          rw [hSlash, hResult, hResult']
          exact .error Fault.isDirectory

/-- A path to the place of the file, which is there at least on the second disk. -/
theorem ChangedAt.sameChange_of_place? (hPath : disk.place? path = some place) :
    SameChange Related (disk.write path content) (disk'.write path content) := by
  rcases h.exists_snoc with ⟨directory, name, rfl⟩
  have hSame := sameTarget_locate h path
  unfold place? at hPath
  generalize hResult : disk.locate true path = result at hSame hPath
  generalize hResult' : disk'.locate true path = result' at hSame
  cases hSame with
  | error fault fault' => cases hPath
  | absent hOther => exact absurd (Option.some.inj hPath) hOther
  | present hOther _ => exact absurd (Option.some.inj hPath) hOther
  | place hEnds hEnds' =>
      exact h.sameChange_of_endsAt hPut (hResult ▸ hEnds) (hResult' ▸ hEnds')

end Writing

end Unasked
end Disk

end FileTree
end CatalogAudit
