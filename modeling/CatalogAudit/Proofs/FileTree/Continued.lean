import CatalogAudit.Proofs.FileTree.Pieces

/-!
# Going on behind a directory

A path that leads to a directory can be continued from there: what is behind it is followed as if
the path had begun in that directory. Below a directory, the names of a location are followed as
they are, since no link stands on the way.
-/

namespace CatalogAudit
namespace FileTree

open CatalogAudit.Path (slash dot)
open Utf8 (Bytes)

/-!
# Empty parts

An empty part matters only at the end of a path.
-/

theorem follow_insert_empty {top : Node} {last : Bool} {jump : Jump} {more : List Name}
    (hMore : more ≠ [])
    (hJump : ∀ location front,
      jump location (front ++ [] :: more) = jump location (front ++ more))
    (location : Location) (front : List Name) :
    follow anyAccess top last jump location (front ++ [] :: more) =
      follow anyAccess top last jump location (front ++ more) := by
  induction front generalizing location with
  | nil => exact follow_skipped (Or.inl rfl)
  | cons part front ih =>
      rw [List.cons_append, List.cons_append]
      rcases name_cases part with hSkip | rfl | ⟨hSkip, hUp, hLong⟩ | hEntry
      · rw [follow_skipped hSkip, follow_skipped hSkip]
        exact ih location
      · rw [follow_up, follow_up]
        exact ih location.dropLast
      · rw [follow_long hSkip hUp (.inl hLong), follow_long hSkip hUp (.inl hLong)]
      · have hBehind : front ++ [] :: more ≠ [] := by simp
        have hBehind' : front ++ more ≠ [] := by simp [hMore]
        rw [follow_entry hEntry rfl, follow_entry hEntry rfl]
        cases hNode : top.at? (location ++ [part]) with
        | none => simp only [hBehind, hBehind', if_false]
        | some node =>
            cases node with
            | file content => simp only [hBehind, hBehind', if_false]
            | directory entries => exact ih (location ++ [part])
            | link target =>
                simp only [hBehind, hBehind', false_and, if_false]
                rw [← List.append_assoc, ← List.append_assoc]
                exact hJump _ _

theorem followLinks_insert_empty {top : Node} {last : Bool} {more : List Name}
    (hMore : more ≠ []) (links : Nat) (location : Location) (front : List Name) :
    followLinks anyAccess top last links location (front ++ [] :: more) =
      followLinks anyAccess top last links location (front ++ more) := by
  induction links generalizing location front with
  | zero => exact follow_insert_empty hMore (fun _ _ => rfl) location front
  | succ links ih => exact follow_insert_empty hMore ih location front

/-!
# Continuing

The links that are left for the rest of the path are at most those that there were.
-/

section Continuing

variable {top : Node} {last : Bool} {target : Location} {entries : Entries}

/-- Behind these parts any others are followed from the target, with so many links left. -/
def LeadsOn (top : Node) (last : Bool) (target : Location) (links : Nat)
    (go : List Name → Except Fault Target) (parts : List Name) : Prop :=
  ∀ more, more ≠ [] → go (parts ++ more) = followLinks anyAccess top last links target more

theorem exists_leadsOn_follow {jump jump' : Jump} (links : Nat)
    (hSelf : ∀ location parts,
      follow anyAccess top last jump' location parts =
        followLinks anyAccess top last links location parts)
    (hJump : ∀ location parts,
      jump location parts = .ok (.present target (.directory entries)) →
        ∃ rest, LeadsOn top last target rest (jump' location) parts)
    {location : Location} {parts : List Name}
    (h : follow anyAccess top true jump location parts =
      .ok (.present target (.directory entries))) :
    ∃ rest, LeadsOn top last target rest (follow anyAccess top last jump' location) parts := by
  -- Each step towards the directory is made again with the further parts behind it, and what is left
  -- of the links at the end does not depend on them.
  induction parts generalizing location with
  | nil =>
      rw [follow_nil] at h
      cases hNode : top.at? location with
      | none =>
          rw [hNode] at h
          cases h
      | some node =>
          rw [hNode] at h
          cases h
          exact ⟨links, fun more _ => hSelf target more⟩
  | cons part parts ih =>
      cases advance_of_follow h with
      | skipped hSkip hRest =>
          rcases ih hRest with ⟨rest, hRest⟩
          exact ⟨rest, fun more hMore => (follow_skipped hSkip).trans (hRest more hMore)⟩
      | up hUp hRest =>
          subst hUp
          rcases ih hRest with ⟨rest, hRest⟩
          exact ⟨rest, fun more hMore => follow_up.trans (hRest more hMore)⟩
      | absent _ _ _ _ hTarget => cases hTarget
      | file _ _ _ _ _ hTarget => cases hTarget
      | directory hEntry _ inner hNode hRest =>
          rcases ih hRest with ⟨rest, hRest⟩
          refine ⟨rest, fun more hMore => ?_⟩
          rw [List.cons_append, follow_entry hEntry rfl, hNode]
          exact hRest more hMore
      | stop _ _ _ _ _ hTarget => cases hTarget
      | jump hEntry _ text hNode _ hRest =>
          rcases hJump _ _ hRest with ⟨rest, hRest⟩
          refine ⟨rest, fun more hMore => ?_⟩
          have hBehind : parts ++ more ≠ [] := by simp [hMore]
          rw [List.cons_append, follow_entry hEntry rfl, hNode]
          simp only [hBehind, false_and, if_false]
          rw [← List.append_assoc]
          exact hRest more hMore

theorem exists_leadsOn_followLinks {links : Nat} {location : Location} {parts : List Name}
    (h : followLinks anyAccess top true links location parts =
      .ok (.present target (.directory entries))) :
    ∃ rest, LeadsOn top last target rest (followLinks anyAccess top last links location) parts := by
  induction links generalizing location parts with
  | zero =>
      apply exists_leadsOn_follow 0 (fun _ _ => rfl) _ h
      intro location parts hError
      cases hError
  | succ links ih =>
      apply exists_leadsOn_follow (links + 1) (fun _ _ => rfl) _ h
      intro location parts hJump
      exact ih hJump

end Continuing

/-!
# Names below a directory
-/

theorem follow_names {top : Node} {last : Bool} {jump : Jump} {location : Location}
    {names : Location} (hNonempty : names ≠ []) (hNames : ∀ name ∈ names, IsFileName name)
    {content : Bytes} (h : top.at? (location ++ names) = some (.file content)) :
    follow anyAccess top last jump location names =
      .ok (.present (location ++ names) (.file content)) := by
  induction names generalizing location with
  | nil => exact absurd rfl hNonempty
  | cons name names ih =>
      have hName := (hNames name (List.mem_cons_self ..)).toIsEntryName
      rw [follow_entry hName rfl]
      cases names with
      | nil =>
          rw [h]
          rfl
      | cons next rest =>
          have hSplit : location ++ name :: next :: rest =
              (location ++ [name]) ++ next :: rest := by simp
          have hInside : top.IsDirectoryAt (location ++ [name]) := by
            rw [hSplit] at h
            exact Node.isDirectoryAt_of_append (List.cons_ne_nil next rest) h
          rcases hInside with ⟨entries, hEntries⟩
          rw [hEntries, hSplit]
          rw [hSplit] at h
          exact ih (List.cons_ne_nil next rest)
            (fun other hOther => hNames other (List.mem_cons_of_mem name hOther)) h

theorem followLinks_names {top : Node} {last : Bool} (links : Nat) {location : Location}
    {names : Location} (hNonempty : names ≠ []) (hNames : ∀ name ∈ names, IsFileName name)
    {content : Bytes} (h : top.at? (location ++ names) = some (.file content)) :
    followLinks anyAccess top last links location names =
      .ok (.present (location ++ names) (.file content)) := by
  cases links with
  | zero => exact follow_names hNonempty hNames h
  | succ links => exact follow_names hNonempty hNames h

/-- As long as the entry is no link, it does not matter how many links may still be met. -/
theorem followLinks_plain {top : Node} {last : Bool} {location : Location} {name : Name}
    (hName : IsEntryName name) (hPlain : ∀ text, top.at? (location ++ [name]) ≠ some (.link text))
    (links : Nat) :
    followLinks anyAccess top last links location [name] =
      followLinks anyAccess top last 0 location [name] := by
  cases links with
  | zero => rfl
  | succ links =>
      unfold followLinks
      rw [follow_entry hName rfl, follow_entry hName rfl]
      cases hNode : top.at? (location ++ [name]) with
      | none => rfl
      | some node =>
          cases node with
          | file content => rfl
          | directory entries => rfl
          | link text => exact absurd hNode (hPlain text)

/-!
# Free names

A path that ends at a name which is still free has been followed to a directory, and the name is
one that a file can have.
-/

section Free

variable {access : Access} {top : Node} {last : Bool} {directory : Location} {name : Name}

theorem isDirectoryAt_start {location : Location} (h : top.IsDirectoryAt location) (text : Path) :
    top.IsDirectoryAt (if Path.isAbsolute text then [] else location) := by
  split
  · exact Node.isDirectoryAt_nil h
  · exact h

theorem free_of_follow {jump : Jump}
    (hJump : ∀ location parts, top.IsDirectoryAt location → (∀ part ∈ parts, slash ∉ part) →
      jump location parts = .ok (.absent directory name) →
        top.IsDirectoryAt directory ∧ IsFileName name)
    {location : Location} {parts : List Name} (hStart : top.IsDirectoryAt location)
    (hParts : ∀ part ∈ parts, slash ∉ part)
    (h : follow access top last jump location parts = .ok (.absent directory name)) :
    top.IsDirectoryAt directory ∧ IsFileName name := by
  induction parts generalizing location with
  | nil =>
      rw [follow_nil] at h
      rcases hStart with ⟨entries, hEntries⟩
      rw [hEntries] at h
      cases h
  | cons part parts ih =>
      have hRest : ∀ other ∈ parts, slash ∉ other :=
        fun other hOther => hParts other (List.mem_cons_of_mem part hOther)
      cases advance_of_follow h with
      | skipped _ h => exact ih hStart hRest h
      | up _ h => exact ih (Node.isDirectoryAt_dropLast hStart) hRest h
      | absent hEntry _ _ _ hTarget =>
          cases hTarget
          exact ⟨hStart, hEntry, hParts _ (List.mem_cons_self ..)⟩
      | file _ _ _ _ _ hTarget => cases hTarget
      | directory _ _ entries hNode h => exact ih ⟨entries, hNode⟩ hRest h
      | stop _ _ _ _ _ hTarget => cases hTarget
      | jump _ _ text _ _ h =>
          apply hJump _ _ (isDirectoryAt_start hStart text) _ h
          intro other hOther
          rcases List.mem_append.mp hOther with hPiece | hPart
          · exact Path.noSlash_of_mem_pieces hPiece
          · exact hRest other hPart

theorem free_of_followLinks {links : Nat} {location : Location} {parts : List Name}
    (hStart : top.IsDirectoryAt location) (hParts : ∀ part ∈ parts, slash ∉ part)
    (h : followLinks access top last links location parts = .ok (.absent directory name)) :
    top.IsDirectoryAt directory ∧ IsFileName name := by
  induction links generalizing location parts with
  | zero =>
      apply free_of_follow _ hStart hParts h
      intro location parts _ _ hError
      cases hError
  | succ links ih =>
      apply free_of_follow _ hStart hParts h
      intro location parts hStart hParts hJump
      exact ih hStart hParts hJump

end Free

/-!
# Paths below a root
-/

namespace Disk

theorem checkPath_of_locate {disk : Disk} {last : Bool} {path : Path} {target : Target}
    (h : disk.locate last path = .ok target) : checkPath path = .ok () := by
  rcases bind_eq_ok.mp h with ⟨_, hPath, _⟩
  exact hPath

theorem locate_of_checkPath {disk : Disk} {last : Bool} {path : Path}
    (h : checkPath path = .ok ()) :
    disk.locate last path =
      followLinks anyAccess disk.top last maxLinks (disk.startOf path) (Path.pieces path) := by
  unfold locate
  rw [h]
  rfl

theorem resolve_eq_ok {disk : Disk} {path : Path} {location : Location} {node : Node} :
    disk.resolve path = .ok (location, node) ↔
      disk.locate true path = .ok (.present location node) := by
  unfold resolve
  constructor
  · intro h
    rcases bind_eq_ok.mp h with ⟨target, hTarget, h⟩
    cases target with
    | present location' node' =>
        cases h
        exact hTarget
    | absent directory name => cases h
  · intro h
    rw [h]
    rfl

theorem checkPath_eq_ok {path : Path} :
    checkPath path = .ok () ↔
      0 ∉ path ∧ path ≠ [] ∧ path.length < pathLengthBound := by
  unfold checkPath
  rw [← Nat.not_le]
  split
  · simp_all
  · split
    · simp_all
    · split
      · simp_all
      · simp_all

theorem ne_nil_of_checkPath {path : Path} (h : checkPath path = .ok ()) : path ≠ [] :=
  (checkPath_eq_ok.mp h).2.1

theorem ne_nil_of_resolve {disk : Disk} {path : Path} {result : Location × Node}
    (h : disk.resolve path = .ok result) : path ≠ [] :=
  ne_nil_of_checkPath (checkPath_of_locate (resolve_eq_ok.mp h))

theorem exists_followLinks_pathBelow {disk : Disk} {root : Path} {rootLocation : Location}
    {entries : Entries} (hRoot : disk.resolve root = .ok (rootLocation, .directory entries))
    {names : Location} (hNonempty : names ≠ []) (hNames : ∀ name ∈ names, IsFileName name)
    (last : Bool) :
    ∃ rest, followLinks anyAccess disk.top last maxLinks
        (disk.startOf (SourceScan.pathBelow root names))
        (Path.pieces (SourceScan.pathBelow root names)) =
      followLinks anyAccess disk.top last rest rootLocation names := by
  have hLocate := resolve_eq_ok.mp hRoot
  rw [locate_of_checkPath (checkPath_of_locate hLocate)] at hLocate
  have hRootPath := ne_nil_of_resolve hRoot
  rcases exists_leadsOn_followLinks hLocate with ⟨rest, hRest⟩
  refine ⟨rest, ?_⟩
  have hStart : disk.startOf (SourceScan.pathBelow root names) = disk.startOf root := by
    unfold startOf
    rw [SourceScan.isAbsolute_pathBelow hRootPath hNames]
  rw [hStart, ← hRest names hNonempty]
  rcases SourceScan.exists_pieces_pathBelow hRootPath hNonempty hNames with
    ⟨front, _, hRootParts, hParts⟩
  rw [hParts]
  rcases hRootParts with hEq | hEq
  · rw [hEq]
  · rw [hEq, List.append_assoc]
    exact (followLinks_insert_empty hNonempty maxLinks _ front).symm

theorem exists_locate_pathBelow {disk : Disk} {root : Path} {rootLocation : Location}
    {entries : Entries} (hRoot : disk.resolve root = .ok (rootLocation, .directory entries))
    {names : Location} (hNonempty : names ≠ []) (hNames : ∀ name ∈ names, IsFileName name)
    (hPath : checkPath (SourceScan.pathBelow root names) = .ok ()) (last : Bool) :
    ∃ rest, disk.locate last (SourceScan.pathBelow root names) =
      followLinks anyAccess disk.top last rest rootLocation names := by
  rw [locate_of_checkPath hPath]
  exact exists_followLinks_pathBelow hRoot hNonempty hNames last

theorem locate_pathBelow {disk : Disk} {root : Path} {rootLocation : Location}
    {entries : Entries} (hRoot : disk.resolve root = .ok (rootLocation, .directory entries))
    {names : Location} (hNonempty : names ≠ []) (hNames : ∀ name ∈ names, IsFileName name)
    (hPath : checkPath (SourceScan.pathBelow root names) = .ok ()) {content : Bytes}
    (hFile : disk.top.at? (rootLocation ++ names) = some (.file content)) :
    disk.locate true (SourceScan.pathBelow root names) =
      .ok (.present (rootLocation ++ names) (.file content)) := by
  rcases exists_locate_pathBelow hRoot hNonempty hNames hPath true with ⟨rest, hRest⟩
  rw [hRest]
  exact followLinks_names rest hNonempty hNames hFile

theorem exists_locate_join {disk : Disk} {root : Path} {rootLocation : Location}
    {entries : Entries} (hRoot : disk.resolve root = .ok (rootLocation, .directory entries))
    {name : Name} (hName : IsFileName name) (hPath : checkPath (Path.join root name) = .ok ())
    (last : Bool) :
    ∃ rest, disk.locate last (Path.join root name) =
      followLinks anyAccess disk.top last rest rootLocation [name] :=
  exists_locate_pathBelow hRoot (List.cons_ne_nil name []) (List.forall_mem_singleton.mpr hName)
    hPath last

/-- An entry that is no link is reached alike through every path to its directory. -/
theorem locate_join_congr {disk : Disk} {root root' : Path} {rootLocation : Location}
    {entries : Entries} (hRoot : disk.resolve root = .ok (rootLocation, .directory entries))
    (hRoot' : disk.resolve root' = .ok (rootLocation, .directory entries)) {name : Name}
    (hName : IsFileName name) (hPath : checkPath (Path.join root name) = .ok ())
    (hPath' : checkPath (Path.join root' name) = .ok ())
    (hPlain : ∀ text, disk.top.at? (rootLocation ++ [name]) ≠ some (.link text)) (last : Bool) :
    disk.locate last (Path.join root' name) = disk.locate last (Path.join root name) := by
  rcases exists_locate_join hRoot hName hPath last with ⟨links, hLinks⟩
  rcases exists_locate_join hRoot' hName hPath' last with ⟨links', hLinks'⟩
  calc disk.locate last (Path.join root' name)
      = followLinks anyAccess disk.top last links' rootLocation [name] := hLinks'
    _ = followLinks anyAccess disk.top last 0 rootLocation [name] :=
        followLinks_plain hName.toIsEntryName hPlain links'
    _ = followLinks anyAccess disk.top last links rootLocation [name] :=
        (followLinks_plain hName.toIsEntryName hPlain links).symm
    _ = disk.locate last (Path.join root name) := hLinks.symm

end Disk
end FileTree
end CatalogAudit
