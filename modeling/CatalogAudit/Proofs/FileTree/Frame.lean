import CatalogAudit.Proofs.FileTree.Places

/-!
# What a write leaves alone

A write changes one place of the disk. Paths lead to the same places as before, and what is read by
a path to another place is what was read there before. The one thing that may differ is the fault of
a path that leads nowhere.
-/

namespace CatalogAudit
namespace FileTree

open Utf8 (Bytes)

/-!
# Places
-/

theorem targetPlace?_of_sameTarget {directory : Location} {name : Name}
    {result result' : Except Fault Target} (h : SameTarget directory name result result') :
    targetPlace? result' = targetPlace? result := by
  cases h with
  | error fault fault' => rfl
  | absent hOther => rfl
  | present hOther hOutline => rfl
  | place hEnds hEnds' => rw [targetPlace?_of_endsAt hEnds, targetPlace?_of_endsAt hEnds']

theorem Node.at?_put_of_isFilePlace {tree : Node} {location : Location} {name : Name}
    (hFree : tree.IsFilePlace (location ++ [name])) (content : Bytes) {place : Location}
    (hPlace : tree.IsFilePlace place) (hOther : place ≠ location ++ [name]) :
    (tree.put location name (.file content)).at? place = tree.at? place := by
  have hSame := Node.outline_at?_put hFree content hOther
  rcases hPlace with hNone | ⟨old, hFile⟩
  · rw [hNone] at hSame ⊢
    exact Option.map_eq_none_iff.mp hSame
  · rw [hFile] at hSame ⊢
    rcases Option.map_eq_some_iff.mp hSame with ⟨node, hNode, hOutline⟩
    rw [hNode, file_of_outline hOutline]

/-- A path that ends at a file or at a free name in one tree does so in the other. -/
theorem exists_endsAt_iff_of_sameTarget {directory : Location} {name : Name}
    {result result' : Except Fault Target} (h : SameTarget directory name result result') :
    (∃ inside free, EndsAt inside free result) ↔ ∃ inside free, EndsAt inside free result' := by
  have hFile : ∀ {location : Location} {node node' : Node}, node'.outline = node.outline →
      (∃ inside free, EndsAt inside free (.ok (.present location node))) →
        ∃ inside free, EndsAt inside free (.ok (.present location node')) := by
    intro location node node' hOutline h
    rcases h with ⟨inside, free, hEnds⟩
    rcases endsAt_present hEnds with ⟨rfl, content, rfl⟩
    rw [Node.file_of_outline hOutline]
    exact ⟨inside, free, hEnds⟩
  cases h with
  | error fault fault' =>
      have hNot : ∀ fault, ¬∃ inside free, EndsAt inside free (.error fault) := by
        intro fault h
        rcases h with ⟨inside, free, hEnds⟩
        exact not_endsAt_error hEnds
      exact iff_of_false (hNot fault) (hNot fault')
  | absent hOther => exact Iff.rfl
  | present hOther hOutline => exact ⟨hFile hOutline, hFile hOutline.symm⟩
  | place hEnds hEnds' =>
      exact iff_of_true ⟨directory, name, hEnds⟩ ⟨directory, name, hEnds'⟩

namespace Disk

/-- It does not matter by which of its paths a file is written. -/
theorem write_eq_ok_congr {disk disk' : Disk} {path path' : Path}
    (h : disk.place? path' = disk.place? path) (hSlash : endsInSlash path' = endsInSlash path)
    {content : Bytes} :
    disk.write path' content = .ok disk' ↔ disk.write path content = .ok disk' := by
  have hOne : ∀ {path path' : Path}, disk.place? path' = disk.place? path →
      endsInSlash path' = endsInSlash path → disk.write path content = .ok disk' →
        disk.write path' content = .ok disk' := by
    intro path path' hSame hSlash hWrite
    have hNot := endsInSlash_of_write hWrite
    rcases write_eq_ok hWrite with ⟨directory, name, hDirectory, hEnds, rfl⟩
    exact write_of_endsAt (hSlash.trans hNot) hDirectory (endsAt_congr hSame hEnds) content
  exact ⟨hOne h.symm hSlash.symm, hOne h hSlash⟩

/-- The second disk has a file at the place, and the two agree beside it. -/
structure ChangedAt (disk : Disk) (place : Location) (disk' : Disk) : Prop where
  sound : disk.IsSound
  sound' : disk'.IsSound
  cwd : disk'.cwd = disk.cwd
  agree : AgreeBeside place disk.top disk'.top
  file : ∃ content, disk'.top.at? place = some (.file content)

/-!
# The working directory
-/

theorem workingDirectory_eq_ok {disk : Disk} {path : Path} :
    disk.workingDirectory = .ok path ↔
      disk.top.IsDirectoryAt disk.cwd ∧ path = disk.cwdPath := by
  unfold workingDirectory
  cases hEntries : disk.top.entriesAt? disk.cwd with
  | some entries =>
      have hDirectory : disk.top.IsDirectoryAt disk.cwd :=
        ⟨entries, Node.entriesAt?_eq_some.mp hEntries⟩
      simp [hDirectory, eq_comm]
  | none =>
      have hGone : ¬disk.top.IsDirectoryAt disk.cwd := by
        intro h
        rcases h with ⟨entries, hDirectory⟩
        cases hEntries.symm.trans (Node.entriesAt?_eq_some.mpr hDirectory)
      simp [hGone]

/-!
# One write
-/

theorem isDirectoryAt_startOf {disk : Disk} (hSound : disk.IsSound) (path : Path) :
    disk.top.IsDirectoryAt (disk.startOf path) :=
  isDirectoryAt_start hSound.cwd path

theorem free_of_locate {disk : Disk} (hSound : disk.IsSound) {path : Path}
    {directory : Location} {name : Name}
    (h : disk.locate true path = .ok (.absent directory name)) :
    disk.top.IsDirectoryAt directory ∧ IsFileName name := by
  have hFollow := h
  rw [locate_of_checkPath (checkPath_of_locate h)] at hFollow
  exact free_of_followLinks (isDirectoryAt_startOf hSound path)
    (fun _ hPart => Path.noSlash_of_mem_pieces hPart) hFollow

theorem directory_of_endsAt {disk : Disk} (hSound : disk.IsSound) {path : Path}
    {directory : Location} {name : Name}
    (h : EndsAt directory name (disk.locate true path)) :
    disk.top.IsDirectoryAt directory ∧ IsFileName name := by
  rcases h with hAbsent | ⟨content, hPresent⟩
  · exact free_of_locate hSound hAbsent
  · have hFile := isIn_of_locate hPresent
    exact ⟨Node.at?_of_at?_snoc hFile,
      hSound.top.isFileName_of_mem hFile name (List.mem_append_right directory
        (List.mem_singleton_self name))⟩

theorem exists_write_iff_endsAt {disk : Disk} (hSound : disk.IsSound) {path : Path}
    (content : Bytes) :
    (∃ disk', disk.write path content = .ok disk') ↔
      endsInSlash path = false ∧
        ∃ directory name, EndsAt directory name (disk.locate true path) := by
  rw [Disk.exists_write_iff]
  apply and_congr_right
  intro _
  constructor
  · intro h
    rcases h with ⟨directory, name, _, hEnds⟩
    exact ⟨directory, name, hEnds⟩
  · intro h
    rcases h with ⟨directory, name, hEnds⟩
    exact ⟨directory, name, (directory_of_endsAt hSound hEnds).1, hEnds⟩

theorem changedAt_put {disk : Disk} (hSound : disk.IsSound) {directory : Location} {name : Name}
    (hDirectory : disk.top.IsDirectoryAt directory) (hName : IsFileName name)
    (hFree : disk.top.IsFilePlace (directory ++ [name])) (content : Bytes) :
    disk.ChangedAt (directory ++ [name])
      { disk with top := disk.top.put directory name (.file content) } := by
  have hAgree := agreeBeside_put hFree content
  constructor
  · exact hSound
  · constructor
    · exact hSound.top.put hName content directory
    · rcases hSound.cwd with ⟨entries, hEntries⟩
      exact directory_of_agreeBeside hAgree hEntries
  · rfl
  · exact hAgree
  · rcases hDirectory with ⟨entries, hEntries⟩
    exact ⟨content, Node.at?_put_self hEntries name (.file content)⟩

/-- A write changes the disk at the place of its path, and what it has written can be read there. -/
theorem changedAt_of_write {disk disk' : Disk} (hSound : disk.IsSound) {path : Path}
    {content : Bytes} (h : disk.write path content = .ok disk') :
    ∃ place, disk.place? path = some place ∧ disk.ChangedAt place disk' ∧
      disk'.readBytes path = .ok content := by
  have hRead := readBytes_write h
  rcases write_eq_ok h with ⟨directory, name, hDirectory, hEnds, rfl⟩
  exact ⟨directory ++ [name], targetPlace?_of_endsAt hEnds,
    changedAt_put hSound hDirectory (directory_of_endsAt hSound hEnds).2
      (isFilePlace_of_endsAt hEnds) content,
    hRead⟩

theorem IsSound.exists_snoc {disk : Disk} (h : disk.IsSound) {location : Location}
    {content : Bytes} (hFile : disk.top.at? location = some (.file content)) :
    ∃ directory name, location = directory ++ [name] := by
  rcases List.eq_nil_or_concat location with rfl | ⟨directory, name, hLocation⟩
  · rcases Node.isDirectoryAt_nil h.cwd with ⟨entries, hEntries⟩
    cases hFile.symm.trans hEntries
  · exact ⟨directory, name, by rw [hLocation, List.concat_eq_append]⟩

/-!
# Questions about other places
-/

section Questions

variable {place : Location} {disk disk' : Disk}

theorem ChangedAt.exists_snoc (h : disk.ChangedAt place disk') :
    ∃ directory name, place = directory ++ [name] := by
  rcases h.file with ⟨content, hFile⟩
  exact h.sound'.exists_snoc hFile

theorem ChangedAt.startOf_eq (h : disk.ChangedAt place disk') (path : Path) :
    disk'.startOf path = disk.startOf path := by
  unfold startOf
  rw [h.cwd]

theorem sameTarget_locate {directory : Location} {name : Name}
    (h : disk.ChangedAt (directory ++ [name]) disk') (path : Path) :
    SameTarget directory name (disk.locate true path) (disk'.locate true path) := by
  cases hPath : checkPath path with
  | error fault =>
      unfold locate
      rw [hPath]
      exact .error fault fault
  | ok _ =>
      rw [locate_of_checkPath hPath, locate_of_checkPath hPath, h.startOf_eq]
      exact sameTarget_followLinks h.agree maxLinks (isDirectoryAt_startOf h.sound path)
        (Path.pieces path)

theorem ChangedAt.place?_eq (h : disk.ChangedAt place disk') (path : Path) :
    disk'.place? path = disk.place? path := by
  rcases h.exists_snoc with ⟨directory, name, rfl⟩
  exact targetPlace?_of_sameTarget (sameTarget_locate h path)

theorem ChangedAt.canonicalPlace?_eq (h : disk.ChangedAt place disk') (path : Path) :
    disk'.canonicalPlace? path = disk.canonicalPlace? path := by
  rcases h.exists_snoc with ⟨directory, name, rfl⟩
  unfold canonicalPlace?
  rw [h.startOf_eq]
  split
  · rfl
  · exact targetPlace?_of_sameTarget (sameTarget_followLinks h.agree maxLinks
      (isDirectoryAt_startOf h.sound path) (Path.pieces path))

/-- A path to another place leads to the same node, apart from what is in it. -/
theorem ChangedAt.outline?_eq (h : disk.ChangedAt place disk') {path : Path}
    (hOther : disk.place? path ≠ some place) : disk'.outline? path = disk.outline? path := by
  rcases h.exists_snoc with ⟨directory, name, rfl⟩
  have hSame := sameTarget_locate h path
  unfold place? at hOther
  unfold outline? resolve
  generalize disk.locate true path = result at hSame hOther
  generalize disk'.locate true path = result' at hSame
  cases hSame with
  | error fault fault' => rfl
  | absent _ => rfl
  | present _ hOutline =>
      show some (_, _) = some (_, _)
      rw [hOutline]
  | place hEnds _ => exact absurd (targetPlace?_of_endsAt hEnds) hOther

theorem ChangedAt.exists?_eq (h : disk.ChangedAt place disk') {path : Path}
    (hOther : disk.place? path ≠ some place) : disk'.exists? path = disk.exists? path := by
  have hExists : ∀ (disk : Disk), disk.exists? path = (disk.outline? path).isSome := by
    intro disk
    unfold exists? outline?
    cases disk.resolve path with
    | error fault => rfl
    | ok found => rfl
  rw [hExists, hExists, h.outline?_eq hOther]

theorem ChangedAt.isSome_at?_eq_of_ne (h : disk.ChangedAt place disk') {other : Location}
    (hOther : other ≠ place) : (disk'.top.at? other).isSome = (disk.top.at? other).isSome := by
  have hSame := congrArg Option.isSome (h.agree.outlines other hOther)
  rwa [Option.isSome_map, Option.isSome_map] at hSame

theorem ChangedAt.isSome_at?_of_isSome (h : disk.ChangedAt place disk') {other : Location}
    (hThere : (disk.top.at? other).isSome = true) : (disk'.top.at? other).isSome = true := by
  by_cases hOther : other = place
  · rcases h.file with ⟨content, hFile⟩
    rw [hOther, hFile]
    rfl
  · rw [h.isSome_at?_eq_of_ne hOther]
    exact hThere

/-- What a path is found to lead to, other than the place itself, it led to before. -/
theorem ChangedAt.canonical?_eq_some (h : disk.ChangedAt place disk') {path : Path}
    {location : Location} (hOther : location ≠ place) :
    disk'.canonical? path = some location ↔ disk.canonical? path = some location := by
  rw [Disk.canonical?_eq_some, Disk.canonical?_eq_some, h.canonicalPlace?_eq,
    h.isSome_at?_eq_of_ne hOther]

theorem ChangedAt.canonical?_of_canonical? (h : disk.ChangedAt place disk') {path : Path}
    {location : Location} (hFound : disk.canonical? path = some location) :
    disk'.canonical? path = some location := by
  rcases Disk.canonical?_eq_some.mp hFound with ⟨hPlace, hThere⟩
  refine Disk.canonical?_eq_some.mpr ⟨?_, h.isSome_at?_of_isSome hThere⟩
  rw [h.canonicalPlace?_eq, hPlace]

theorem ChangedAt.at?_eq_file (h : disk.ChangedAt place disk') {other : Location}
    (hOther : other ≠ place) {content : Bytes} :
    disk'.top.at? other = some (.file content) ↔ disk.top.at? other = some (.file content) := by
  constructor
  · intro hFile
    have hSame := h.agree.outlines other hOther
    rw [hFile] at hSame
    rcases Option.map_eq_some_iff.mp hSame.symm with ⟨node, hNode, hOutline⟩
    rw [hNode, Node.file_of_outline hOutline]
  · exact file_of_agreeBeside h.agree hOther

theorem ChangedAt.readBytes_eq (h : disk.ChangedAt place disk') {path : Path}
    (hOther : disk.place? path ≠ some place) :
    (disk'.readBytes path).toOption = (disk.readBytes path).toOption := by
  have hRead : ∀ (disk : Disk), (disk.readBytes path).toOption =
      (disk.outline? path).bind fun found => found.2.content? := by
    intro disk
    unfold readBytes outline?
    cases disk.resolve path with
    | error fault => rfl
    | ok found =>
        obtain ⟨location, node⟩ := found
        cases node with
        | file content => rfl
        | link text => rfl
        | directory entries => rfl
  rw [hRead, hRead, h.outline?_eq hOther]

theorem ChangedAt.readText_eq (h : disk.ChangedAt place disk') {path : Path}
    (hOther : disk.place? path ≠ some place) :
    (disk'.readText path).toOption = (disk.readText path).toOption := by
  rw [toOption_readText, toOption_readText, h.readBytes_eq hOther]

theorem ChangedAt.exists?_of_exists? (h : disk.ChangedAt place disk') {path : Path}
    (hThere : disk.exists? path = true) : disk'.exists? path = true := by
  by_cases hPlace : disk.place? path = some place
  · rcases h.file with ⟨content, hFile⟩
    have hFound := resolve_of_place? ((h.place?_eq path).trans hPlace) hFile
    unfold exists?
    rw [hFound]
  · rw [h.exists?_eq hPlace]
    exact hThere

theorem ChangedAt.exists?_eq_of_exists? (h : disk.ChangedAt place disk') {path : Path}
    (hOther : disk'.exists? path = true → disk'.place? path ≠ some place) :
    disk'.exists? path = disk.exists? path := by
  cases hThere : disk'.exists? path with
  | true =>
      have hPlace := hOther hThere
      rw [h.place?_eq] at hPlace
      rw [← h.exists?_eq hPlace, hThere]
  | false =>
      cases hBefore : disk.exists? path with
      | true => exact hThere.symm.trans (h.exists?_of_exists? hBefore)
      | false => rfl

theorem ChangedAt.exists_directory (h : disk.ChangedAt place disk') {path : Path}
    {location : Location} {entries : Entries}
    (hPath : disk.resolve path = .ok (location, .directory entries)) :
    ∃ inner, disk'.resolve path = .ok (location, .directory inner) := by
  have hDirectory : disk.top.IsDirectoryAt location :=
    ⟨entries, isIn_of_locate (resolve_eq_ok.mp hPath)⟩
  have hOther : disk.place? path ≠ some place := by
    rw [place?_of_resolve hPath]
    intro hEq
    exact ne_place_of_isDirectoryAt h.agree hDirectory (Option.some.inj hEq)
  have hOutline := h.outline?_eq hOther
  rw [outline?_eq_some hPath] at hOutline
  rcases exists_resolve_of_outline? hOutline with ⟨node, hNode, hSame⟩
  rcases Node.directory_of_outline hSame with ⟨inner, rfl⟩
  exact ⟨inner, hNode⟩

theorem ChangedAt.exists_directory_before (h : disk.ChangedAt place disk') {path : Path}
    {location : Location} {entries : Entries}
    (hPath : disk'.resolve path = .ok (location, .directory entries)) :
    ∃ inner, disk.resolve path = .ok (location, .directory inner) := by
  have hOther : disk.place? path ≠ some place := by
    rw [← h.place?_eq, place?_of_resolve hPath]
    intro hEq
    rcases h.file with ⟨content, hFile⟩
    rw [← Option.some.inj hEq] at hFile
    cases (isIn_of_locate (resolve_eq_ok.mp hPath)).symm.trans hFile
  have hOutline := h.outline?_eq hOther
  rw [outline?_eq_some hPath] at hOutline
  rcases exists_resolve_of_outline? hOutline.symm with ⟨node, hNode, hSame⟩
  rcases Node.directory_of_outline hSame with ⟨inner, rfl⟩
  exact ⟨inner, hNode⟩

/-- A path that can be written to before can be written to afterwards, and the other way round. -/
theorem ChangedAt.exists_write_iff (h : disk.ChangedAt place disk') (path : Path)
    (content content' : Bytes) :
    (∃ written, disk.write path content = .ok written) ↔
      ∃ written, disk'.write path content' = .ok written := by
  rcases h.exists_snoc with ⟨directory, name, rfl⟩
  rw [exists_write_iff_endsAt h.sound, exists_write_iff_endsAt h.sound']
  apply and_congr_right
  intro _
  exact exists_endsAt_iff_of_sameTarget (sameTarget_locate h path)

theorem ChangedAt.isDirectoryAt_iff (h : disk.ChangedAt place disk') {location : Location} :
    disk'.top.IsDirectoryAt location ↔ disk.top.IsDirectoryAt location := by
  constructor
  · intro hDirectory
    rcases hDirectory with ⟨inner, hInner⟩
    have hOther : location ≠ place := by
      rintro rfl
      rcases h.file with ⟨content, hFile⟩
      cases hInner.symm.trans hFile
    have hSame := h.agree.outlines location hOther
    rw [hInner] at hSame
    rcases Option.map_eq_some_iff.mp hSame.symm with ⟨node, hNode, hOutline⟩
    rcases Node.directory_of_outline hOutline with ⟨entries, rfl⟩
    exact ⟨entries, hNode⟩
  · intro hDirectory
    rcases hDirectory with ⟨entries, hEntries⟩
    exact directory_of_agreeBeside h.agree hEntries

theorem ChangedAt.exists_file (h : disk.ChangedAt place disk') {other : Location}
    (hFile : ∃ content, disk.top.at? other = some (.file content)) :
    ∃ content, disk'.top.at? other = some (.file content) := by
  by_cases hOther : other = place
  · rw [hOther]
    exact h.file
  · rcases hFile with ⟨content, hContent⟩
    exact ⟨content, (h.at?_eq_file hOther).mpr hContent⟩

end Questions

end Disk
end FileTree
end CatalogAudit
