import CatalogAudit.Proofs.FileTree.Frame
import CatalogAudit.Proofs.FileTree.Listing
import Mathlib.Logic.Relation

/-!
# Several changes

Files are changed one after the other, each of them at one of some places. All that one change
leaves alone is left alone by any number of them, and no file goes away.
-/

namespace CatalogAudit
namespace FileTree
namespace Disk

open Utf8 (Bytes)

/-- One disk comes from the other when files at these places are changed. -/
def ChangedIn (disk : Disk) (places : Location → Prop) (disk' : Disk) : Prop :=
  Relation.ReflTransGen
    (fun disk disk' : Disk => ∃ place, places place ∧ disk.ChangedAt place disk') disk disk'

namespace ChangedIn

variable {places : Location → Prop} {disk disk' : Disk}

theorem refl (disk : Disk) (places : Location → Prop) : disk.ChangedIn places disk :=
  Relation.ReflTransGen.refl

theorem of_changedAt {place : Location} (h : disk.ChangedAt place disk') (hPlace : places place) :
    disk.ChangedIn places disk' :=
  Relation.ReflTransGen.single ⟨place, hPlace, h⟩

theorem trans {disk'' : Disk} (h : disk.ChangedIn places disk')
    (h' : disk'.ChangedIn places disk'') : disk.ChangedIn places disk'' :=
  Relation.ReflTransGen.trans h h'

theorem mono {others : Location → Prop} (h : disk.ChangedIn places disk')
    (hPlaces : ∀ place, places place → others place) : disk.ChangedIn others disk' := by
  refine Relation.ReflTransGen.mono ?_ disk disk' h
  intro disk disk' hStep
  rcases hStep with ⟨place, hPlace, hChanged⟩
  exact ⟨place, hPlaces place hPlace, hChanged⟩

theorem isSound (h : disk.ChangedIn places disk') (hSound : disk.IsSound) : disk'.IsSound := by
  cases h with
  | refl => exact hSound
  | tail _ hStep =>
      rcases hStep with ⟨place, _, hChanged⟩
      exact hChanged.sound'

theorem cwd_eq (h : disk.ChangedIn places disk') : disk'.cwd = disk.cwd := by
  induction h with
  | refl => rfl
  | tail _ hStep ih =>
      rcases hStep with ⟨place, _, hChanged⟩
      exact hChanged.cwd.trans ih

theorem cwdPath_eq (h : disk.ChangedIn places disk') : disk'.cwdPath = disk.cwdPath := by
  unfold cwdPath
  rw [h.cwd_eq]

theorem place?_eq (h : disk.ChangedIn places disk') (path : Path) :
    disk'.place? path = disk.place? path := by
  induction h with
  | refl => rfl
  | tail _ hStep ih =>
      rcases hStep with ⟨place, _, hChanged⟩
      exact (hChanged.place?_eq path).trans ih

theorem canonicalPlace?_eq (h : disk.ChangedIn places disk') (path : Path) :
    disk'.canonicalPlace? path = disk.canonicalPlace? path := by
  induction h with
  | refl => rfl
  | tail _ hStep ih =>
      rcases hStep with ⟨place, _, hChanged⟩
      exact (hChanged.canonicalPlace?_eq path).trans ih

theorem isDirectoryAt_iff (h : disk.ChangedIn places disk') {location : Location} :
    disk'.top.IsDirectoryAt location ↔ disk.top.IsDirectoryAt location := by
  induction h with
  | refl => exact Iff.rfl
  | tail _ hStep ih =>
      rcases hStep with ⟨place, _, hChanged⟩
      exact hChanged.isDirectoryAt_iff.trans ih

theorem exists_file (h : disk.ChangedIn places disk') {other : Location}
    (hFile : ∃ content, disk.top.at? other = some (.file content)) :
    ∃ content, disk'.top.at? other = some (.file content) := by
  induction h with
  | refl => exact hFile
  | tail _ hStep ih =>
      rcases hStep with ⟨place, _, hChanged⟩
      exact hChanged.exists_file ih

theorem readBytes_eq (h : disk.ChangedIn places disk') {path : Path}
    (hOther : ∀ place, disk.place? path = some place → ¬places place) :
    (disk'.readBytes path).toOption = (disk.readBytes path).toOption := by
  induction h with
  | refl => rfl
  | tail hBefore hStep ih =>
      rcases hStep with ⟨place, hPlace, hChanged⟩
      refine (hChanged.readBytes_eq ?_).trans ih
      intro hSame
      exact hOther place ((place?_eq hBefore path).symm.trans hSame) hPlace

theorem readText_eq (h : disk.ChangedIn places disk') {path : Path}
    (hOther : ∀ place, disk.place? path = some place → ¬places place) :
    (disk'.readText path).toOption = (disk.readText path).toOption := by
  induction h with
  | refl => rfl
  | tail hBefore hStep ih =>
      rcases hStep with ⟨place, hPlace, hChanged⟩
      refine (hChanged.readText_eq ?_).trans ih
      intro hSame
      exact hOther place ((place?_eq hBefore path).symm.trans hSame) hPlace

theorem exists?_eq (h : disk.ChangedIn places disk') {path : Path}
    (hThere : ∀ place, disk.place? path = some place → places place → disk.exists? path = true) :
    disk'.exists? path = disk.exists? path := by
  induction h with
  | refl => rfl
  | @tail middle last hBefore hStep ih =>
      rcases hStep with ⟨place, hPlace, hChanged⟩
      by_cases hSame : middle.place? path = some place
      · have hFirst := hThere place ((place?_eq hBefore path).symm.trans hSame) hPlace
        rw [hChanged.exists?_of_exists? (ih.trans hFirst), hFirst]
      · exact (hChanged.exists?_eq hSame).trans ih

theorem exists_write_iff (h : disk.ChangedIn places disk') (path : Path)
    (content content' : Bytes) :
    (∃ written, disk.write path content = .ok written) ↔
      ∃ written, disk'.write path content' = .ok written := by
  induction h with
  | refl => rw [Disk.exists_write_iff, Disk.exists_write_iff]
  | tail _ hStep ih =>
      rcases hStep with ⟨place, _, hChanged⟩
      exact ih.trans (hChanged.exists_write_iff path content' content')

theorem outlines (h : disk.ChangedIn places disk') {other : Location} (hOther : ¬places other) :
    (disk'.top.at? other).map Node.outline = (disk.top.at? other).map Node.outline := by
  induction h with
  | refl => rfl
  | tail _ hStep ih =>
      rcases hStep with ⟨place, hPlace, hChanged⟩
      refine (hChanged.agree.outlines other ?_).trans ih
      intro hSame
      rw [hSame] at hOther
      exact hOther hPlace

theorem outline?_eq (h : disk.ChangedIn places disk') {path : Path}
    (hOther : ∀ place, disk.place? path = some place → ¬places place) :
    disk'.outline? path = disk.outline? path := by
  induction h with
  | refl => rfl
  | tail hBefore hStep ih =>
      rcases hStep with ⟨place, hPlace, hChanged⟩
      refine (hChanged.outline?_eq ?_).trans ih
      intro hSame
      exact hOther place ((place?_eq hBefore path).symm.trans hSame) hPlace

end ChangedIn

/-- Outside of these places the nodes are the same, and the paths that lead to them still do. -/
structure AgreesOutside (disk : Disk) (places : Location → Prop) (disk' : Disk) : Prop where
  nodes : ∀ place, ¬places place →
    (disk'.top.at? place).map Node.outline = (disk.top.at? place).map Node.outline
  paths : ∀ path, (∀ place, disk.place? path = some place → ¬places place) →
    disk'.outline? path = disk.outline? path
  cwd : disk'.cwd = disk.cwd

theorem ChangedIn.agreesOutside {disk disk' : Disk} {places : Location → Prop}
    (h : disk.ChangedIn places disk') : disk.AgreesOutside places disk' where
  nodes _ hOther := h.outlines hOther
  paths _ hOther := h.outline?_eq hOther
  cwd := h.cwd_eq

/-!
# New files
-/

theorem exists?_iff {disk : Disk} {path : Path} :
    disk.exists? path = true ↔ ∃ found, disk.resolve path = .ok found := by
  unfold exists?
  cases disk.resolve path with
  | error fault => simp
  | ok found => simp

theorem exists?_of_readBytes {disk : Disk} {path : Path} {content : Bytes}
    (h : disk.readBytes path = .ok content) : disk.exists? path = true := by
  rcases bind_eq_ok.mp h with ⟨found, hResolve, _⟩
  exact exists?_iff.mpr ⟨found, hResolve⟩

theorem exists?_of_readText {disk : Disk} {path : Path} {text : String}
    (h : disk.readText path = .ok text) : disk.exists? path = true := by
  rcases bind_eq_ok.mp h with ⟨content, hRead, _⟩
  exact exists?_of_readBytes hRead

theorem place?_ne_of_exists? {disk : Disk} {path other : Path} (h : disk.exists? path = true)
    (hNew : disk.exists? other = false) {place : Location}
    (hPlace : disk.place? other = some place) : disk.place? path ≠ some place := by
  rcases exists?_iff.mp h with ⟨⟨location, node⟩, hResolve⟩
  intro hSame
  cases (place?_of_resolve hResolve).symm.trans hSame
  have hNode := isIn_of_locate (resolve_eq_ok.mp hResolve)
  have hOther := exists?_iff.mpr ⟨_, resolve_of_place? hPlace hNode⟩
  rw [hOther] at hNew
  cases hNew

/-!
# Files and directories

What is a file stays one, and another file can be written in its place. The names in a directory
stay the same as well.
-/

theorem listDirectory_eq_ok {disk : Disk} {path : Path} {names : List Name} :
    disk.listDirectory path = .ok names ↔
      ∃ location entries, disk.resolve path = .ok (location, .directory entries) ∧
        names = entries.map (·.1) := by
  unfold listDirectory
  rw [bind_eq_ok]
  constructor
  · intro h
    rcases h with ⟨⟨location, node⟩, hResolve, hNames⟩
    cases node with
    | file content => cases hNames
    | link target => cases hNames
    | directory entries => exact ⟨location, entries, hResolve, (Except.ok.inj hNames).symm⟩
  · intro h
    rcases h with ⟨location, entries, hResolve, rfl⟩
    exact ⟨_, hResolve, rfl⟩

theorem isFile_iff {disk : Disk} {path : Path} :
    disk.isFile path = true ↔ ∃ place content, disk.resolve path = .ok (place, .file content) := by
  unfold isFile
  cases hResolve : disk.resolve path with
  | error fault => simp
  | ok found =>
      obtain ⟨place, node⟩ := found
      cases node with
      | file content => simp
      | link target => simp
      | directory entries => simp

theorem isFile_of_readBytes {disk : Disk} {path : Path} {content : Bytes}
    (h : disk.readBytes path = .ok content) : disk.isFile path = true := by
  rcases bind_eq_ok.mp h with ⟨⟨place, node⟩, hResolve, hRead⟩
  cases node with
  | file inside => exact isFile_iff.mpr ⟨place, inside, hResolve⟩
  | link target => cases hRead
  | directory entries => cases hRead

theorem ChangedIn.isFile {places : Location → Prop} {disk disk' : Disk}
    (h : disk.ChangedIn places disk') {path : Path} (hFile : disk.isFile path = true) :
    disk'.isFile path = true := by
  rcases isFile_iff.mp hFile with ⟨place, content, hResolve⟩
  have hPlace := place?_of_resolve hResolve
  rcases h.exists_file ⟨content, isIn_of_locate (resolve_eq_ok.mp hResolve)⟩ with ⟨inside, hInside⟩
  rw [← h.place?_eq] at hPlace
  exact isFile_iff.mpr ⟨place, inside, resolve_of_place? hPlace hInside⟩

theorem exists_write_of_isFile {disk : Disk} (hSound : disk.IsSound) {path : Path}
    (hSlash : endsInSlash path = false) (hFile : disk.isFile path = true) (content : Bytes) :
    ∃ disk', disk.write path content = .ok disk' := by
  rcases isFile_iff.mp hFile with ⟨place, old, hResolve⟩
  have hLocate := resolve_eq_ok.mp hResolve
  rcases hSound.exists_snoc (isIn_of_locate hLocate) with ⟨directory, name, rfl⟩
  exact ⟨_, write_of_endsAt hSlash (Node.at?_of_at?_snoc (isIn_of_locate hLocate))
    (Or.inr ⟨old, hLocate⟩) content⟩

/-!
# Files that are there already

A change of such a file neither makes an entry nor takes one away.
-/

section Present

variable {disk disk' : Disk} {place : Location} (h : disk.ChangedAt place disk')
  (hThere : ∃ content, disk.top.at? place = some (.file content))
include h hThere

theorem ChangedAt.isSome_at?_eq (other : Location) :
    (disk'.top.at? other).isSome = (disk.top.at? other).isSome := by
  by_cases hOther : other = place
  · rcases hThere with ⟨content, hFile⟩
    rcases h.file with ⟨content', hFile'⟩
    rw [hOther, hFile, hFile']
    rfl
  · exact h.isSome_at?_eq_of_ne hOther

theorem ChangedAt.listDirectory_eq {path : Path} {names : List Name}
    (hNames : disk.listDirectory path = .ok names) : disk'.listDirectory path = .ok names := by
  rcases listDirectory_eq_ok.mp hNames with ⟨location, entries, hResolve, rfl⟩
  rcases h.exists_directory hResolve with ⟨entries', hResolve'⟩
  have hAt := isIn_of_locate (resolve_eq_ok.mp hResolve)
  have hAt' := isIn_of_locate (resolve_eq_ok.mp hResolve')
  have hSame : entries.map (·.1) = entries'.map (·.1) := by
    apply (Node.pairwise_names h.sound.top hAt).eq_of_mem_iff
      (Node.pairwise_names h.sound'.top hAt')
    intro name
    rw [Node.mem_names h.sound'.top hAt', Node.mem_names h.sound.top hAt,
      h.isSome_at?_eq hThere]
  exact listDirectory_eq_ok.mpr ⟨location, entries', hResolve', hSame⟩

theorem ChangedAt.isFile_eq (path : Path) : disk'.isFile path = disk.isFile path := by
  have hBack : disk'.isFile path = true → disk.isFile path = true := by
    intro hFile
    rcases isFile_iff.mp hFile with ⟨other, content, hResolve⟩
    have hPlace := (h.place?_eq path).symm.trans (place?_of_resolve hResolve)
    have hAt := isIn_of_locate (resolve_eq_ok.mp hResolve)
    by_cases hOther : other = place
    · rcases hThere with ⟨old, hOld⟩
      rw [hOther] at hPlace
      exact isFile_iff.mpr ⟨place, old, resolve_of_place? hPlace hOld⟩
    · exact isFile_iff.mpr ⟨other, content,
        resolve_of_place? hPlace ((h.at?_eq_file hOther).mp hAt)⟩
  have hChanged : disk.ChangedIn (· = place) disk' := .of_changedAt h rfl
  exact Bool.eq_iff_iff.mpr ⟨hBack, hChanged.isFile⟩

end Present

end Disk
end FileTree
end CatalogAudit
