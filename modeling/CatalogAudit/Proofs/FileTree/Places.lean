import CatalogAudit.Proofs.FileTree.Writes

/-!
# Places

Paths that lead to the same place are paths to the same file. The canonical location of a path is
its place, if it can be found: the absolute paths on the way have to be short enough for that.
-/

namespace CatalogAudit
namespace FileTree

open Utf8 (Bytes)

/-- Where the target is, or where it would be. -/
def Target.place : Target → Location
  | .present location _ => location
  | .absent directory name => directory ++ [name]

def targetPlace? (result : Except Fault Target) : Option Location :=
  result.toOption.map Target.place

theorem targetPlace?_of_endsAt {directory : Location} {name : Name}
    {result : Except Fault Target} (h : EndsAt directory name result) :
    targetPlace? result = some (directory ++ [name]) := by
  rcases h with rfl | ⟨content, rfl⟩
  · rfl
  · rfl

def Node.content? : Node → Option Bytes
  | .file content => some content
  | .link _ => none
  | .directory _ => none

namespace Disk

/-- The place that a path leads to. Two paths with the same place are paths to the same file. -/
def place? (disk : Disk) (path : Path) : Option Location :=
  targetPlace? (disk.locate true path)

/-- The place of the node that a path leads to, and the node without what is in it. -/
def outline? (disk : Disk) (path : Path) : Option (Location × Node) :=
  (disk.resolve path).toOption.map fun found => (found.1, found.2.outline)

theorem outline?_eq_some {disk : Disk} {path : Path} {location : Location} {node : Node}
    (h : disk.resolve path = .ok (location, node)) :
    disk.outline? path = some (location, node.outline) := by
  unfold outline?
  rw [h]
  rfl

theorem exists_resolve_of_outline? {disk : Disk} {path : Path} {location : Location}
    {outline : Node} (h : disk.outline? path = some (location, outline)) :
    ∃ node, disk.resolve path = .ok (location, node) ∧ node.outline = outline := by
  unfold outline? at h
  cases hResolve : disk.resolve path with
  | error fault =>
      rw [hResolve] at h
      cases h
  | ok found =>
      rw [hResolve] at h
      cases h
      exact ⟨found.2, rfl, rfl⟩

theorem place?_of_resolve {disk : Disk} {path : Path} {location : Location} {node : Node}
    (h : disk.resolve path = .ok (location, node)) : disk.place? path = some location := by
  unfold place?
  rw [resolve_eq_ok.mp h]
  rfl

theorem resolve_of_place? {disk : Disk} {path : Path} {location : Location}
    (h : disk.place? path = some location) {node : Node}
    (hNode : disk.top.at? location = some node) : disk.resolve path = .ok (location, node) := by
  unfold place? at h
  cases hTarget : disk.locate true path with
  | error fault =>
      rw [hTarget] at h
      cases h
  | ok target =>
      rw [hTarget] at h
      have hIn := isIn_of_locate hTarget
      cases target with
      | present found inside =>
          cases h
          cases hIn.symm.trans hNode
          exact resolve_eq_ok.mpr hTarget
      | absent directory name =>
          cases h
          cases hIn.symm.trans hNode

theorem toOption_readBytes_of_place? {disk : Disk} {path : Path} {location : Location}
    (h : disk.place? path = some location) :
    (disk.readBytes path).toOption = (disk.top.at? location).bind Node.content? := by
  cases hNode : disk.top.at? location with
  | none =>
      cases hRead : disk.readBytes path with
      | error fault => rfl
      | ok content =>
          rcases bind_eq_ok.mp hRead with ⟨⟨found, node⟩, hResolve, _⟩
          cases (place?_of_resolve hResolve).symm.trans h
          cases (isIn_of_locate (resolve_eq_ok.mp hResolve)).symm.trans hNode
  | some node =>
      unfold readBytes
      rw [resolve_of_place? h hNode]
      cases node with
      | file content => rfl
      | link target => rfl
      | directory entries => rfl

theorem toOption_readText (disk : Disk) (path : Path) :
    (disk.readText path).toOption = (disk.readBytes path).toOption.bind textOf? := by
  unfold readText
  cases disk.readBytes path with
  | error fault => rfl
  | ok bytes =>
      simp only [bind, Except.bind]
      cases hText : textOf? bytes with
      | none => exact hText.symm
      | some text => exact hText.symm

/-!
# Paths to one place
-/

section OnePlace

variable {disk : Disk} {path path' : Path} (h : disk.place? path' = disk.place? path)
include h

theorem resolve_congr {location : Location} {node : Node} :
    disk.resolve path' = .ok (location, node) ↔ disk.resolve path = .ok (location, node) := by
  have hOne : ∀ {path path' : Path}, disk.place? path' = disk.place? path →
      disk.resolve path = .ok (location, node) → disk.resolve path' = .ok (location, node) := by
    intro path path' hSame hResolve
    exact resolve_of_place? (hSame.trans (place?_of_resolve hResolve))
      (isIn_of_locate (resolve_eq_ok.mp hResolve))
  exact ⟨hOne h.symm, hOne h⟩

theorem toOption_readBytes_congr :
    (disk.readBytes path').toOption = (disk.readBytes path).toOption := by
  apply Option.ext
  intro content
  simp only [toOption_eq_some, readBytes, bind_eq_ok, Prod.exists, resolve_congr h]

theorem toOption_readText_congr :
    (disk.readText path').toOption = (disk.readText path).toOption := by
  rw [toOption_readText, toOption_readText, toOption_readBytes_congr h]

theorem endsAt_congr {directory : Location} {name : Name}
    (hEnds : EndsAt directory name (disk.locate true path)) :
    EndsAt directory name (disk.locate true path') := by
  have hPlace : disk.place? path' = some (directory ++ [name]) :=
    h.trans (targetPlace?_of_endsAt hEnds)
  have hFree := isFilePlace_of_endsAt hEnds
  unfold place? at hPlace
  cases hTarget : disk.locate true path' with
  | error fault =>
      rw [hTarget] at hPlace
      cases hPlace
  | ok target =>
      rw [hTarget] at hPlace
      have hIn := isIn_of_locate hTarget
      cases target with
      | absent inside free =>
          rcases List.append_inj' (Option.some.inj hPlace) rfl with ⟨rfl, hName⟩
          cases hName
          exact Or.inl rfl
      | present location node =>
          cases hPlace
          rcases hFree with hNone | ⟨content, hFile⟩
          · cases hNone.symm.trans hIn
          · cases hFile.symm.trans hIn
            exact Or.inr ⟨content, rfl⟩

end OnePlace

/-!
# Canonical locations
-/

end Disk

section AnyAccess

variable {access : Access} {top : Node} {last : Bool} {target : Target} {location : Location}
  {parts : List Name}

/-- What is found although some entries cannot be asked for is found all the more if all can. -/
theorem follow_anyAccess {jump jump' : Jump}
    (hJump : ∀ location parts, jump location parts = .ok target →
      jump' location parts = .ok target)
    (h : follow access top last jump location parts = .ok target) :
    follow anyAccess top last jump' location parts = .ok target := by
  induction parts generalizing location with
  | nil => exact h
  | cons part parts ih =>
      cases advance_of_follow h with
      | skipped hSkip hRest => exact (follow_skipped hSkip).trans (ih hRest)
      | up hUp hRest =>
          subst hUp
          exact follow_up.trans (ih hRest)
      | absent hEntry _ hNode hLast hTarget =>
          rw [follow_entry hEntry rfl, hNode, hLast, hTarget]
          rfl
      | file hEntry _ content hNode hLast hTarget =>
          rw [follow_entry hEntry rfl, hNode, hLast, hTarget]
          rfl
      | directory hEntry _ entries hNode hRest =>
          rw [follow_entry hEntry rfl, hNode]
          exact ih hRest
      | stop hEntry _ text hNode hLast hTarget =>
          rw [follow_entry hEntry rfl, hNode, hTarget]
          exact if_pos hLast
      | jump hEntry _ text hNode hLast hRest =>
          rw [follow_entry hEntry rfl, hNode]
          exact (if_neg hLast).trans (hJump _ _ hRest)

theorem followLinks_anyAccess {links : Nat}
    (h : followLinks access top last links location parts = .ok target) :
    followLinks anyAccess top last links location parts = .ok target := by
  induction links generalizing location parts with
  | zero =>
      apply follow_anyAccess _ h
      intro location parts hError
      cases hError
  | succ links ih =>
      apply follow_anyAccess _ h
      intro location parts hJump
      exact ih hJump

end AnyAccess

namespace Disk

/-- The place that the canonical location of a path is or would be, if it can be found. -/
def canonicalPlace? (disk : Disk) (path : Path) : Option Location :=
  if path.contains 0 ∨ path = [] then none
  else
    targetPlace? (followLinks wholePathAccess disk.top true maxLinks (disk.startOf path)
      (Path.pieces path))

theorem canonical?_eq_some {disk : Disk} {path : Path} {location : Location} :
    disk.canonical? path = some location ↔
      disk.canonicalPlace? path = some location ∧ (disk.top.at? location).isSome = true := by
  unfold canonical? canonicalPlace?
  split
  · simp
  · cases hResult : followLinks wholePathAccess disk.top true maxLinks (disk.startOf path)
      (Path.pieces path) with
    | error fault => simp [targetPlace?, Except.toOption]
    | ok target =>
        have hIn := isIn_of_followLinks hResult
        cases target with
        | present found node =>
            have hNode : disk.top.at? found = some node := hIn
            constructor
            · intro h
              cases h
              exact ⟨rfl, by rw [hNode]; rfl⟩
            · intro h
              exact h.1
        | absent directory name =>
            have hNone : disk.top.at? (directory ++ [name]) = none := hIn
            constructor
            · intro h
              cases h
            · intro h
              rcases h with ⟨hPlace, hThere⟩
              cases hPlace
              cases hNone.symm ▸ hThere

theorem followLinks_of_canonicalPlace? {disk : Disk} {path : Path} {location : Location}
    (h : disk.canonicalPlace? path = some location) :
    ∃ target, target.place = location ∧
      followLinks anyAccess disk.top true maxLinks (disk.startOf path) (Path.pieces path) =
        .ok target := by
  unfold canonicalPlace? at h
  split at h
  · cases h
  · rcases Option.map_eq_some_iff.mp h with ⟨target, hTarget, hPlace⟩
    exact ⟨target, hPlace, followLinks_anyAccess (toOption_eq_some.mp hTarget)⟩

theorem place?_of_canonicalPlace? {disk : Disk} {path : Path} {location : Location}
    (hPath : checkPath path = .ok ()) (h : disk.canonicalPlace? path = some location) :
    disk.place? path = some location := by
  rcases followLinks_of_canonicalPlace? h with ⟨target, rfl, hFound⟩
  unfold place?
  rw [locate_of_checkPath hPath, hFound]
  rfl

/-- The canonical location of a file below a root, if it is found, is behind that of the root. -/
theorem eq_append_of_canonicalPlace?_pathBelow {disk : Disk} {root : Path} {rootLocation : Location}
    {entries : Entries} (hRoot : disk.resolve root = .ok (rootLocation, .directory entries))
    {names : Location} (hNonempty : names ≠ []) (hNames : ∀ name ∈ names, IsFileName name)
    {content : Bytes} (hFile : disk.top.at? (rootLocation ++ names) = some (.file content))
    {location : Location}
    (h : disk.canonicalPlace? (SourceScan.pathBelow root names) = some location) :
    location = rootLocation ++ names := by
  rcases followLinks_of_canonicalPlace? h with ⟨target, rfl, hFound⟩
  rcases exists_followLinks_pathBelow hRoot hNonempty hNames true with ⟨rest, hRest⟩
  cases hFound.symm.trans (hRest.trans (followLinks_names rest hNonempty hNames hFile))
  rfl

end Disk
end FileTree
end CatalogAudit
