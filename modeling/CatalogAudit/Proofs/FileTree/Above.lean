import CatalogAudit.Proofs.FileTree.Continued
import Mathlib.Data.List.DropRight

/-!
# Paths of locations

The absolute path of a location has one part for each name. Cutting off the last part gives the path
of the directory above it, and so the paths above a location are those of its initial parts. Parts
that are empty or a single dot are cut off together with the name before them.
-/

namespace CatalogAudit

namespace Path

open Utf8 (Bytes)

/-!
# Absolute paths
-/

theorem isAbsolute_iff {path : Path} : isAbsolute path = true ↔ ∃ rest, path = slash :: rest := by
  unfold isAbsolute
  cases path with
  | nil => simp
  | cons b bs => simp

theorem isAbsolute_append {path : Path} (h : isAbsolute path = true) (more : Bytes) :
    isAbsolute (path ++ more) = true := by
  rcases isAbsolute_iff.mp h with ⟨rest, rfl⟩
  rfl

theorem isAbsolute_join_of_isAbsolute {base : Path} (hBase : isAbsolute base = true)
    (path : Path) : isAbsolute (join base path) = true := by
  unfold join
  split
  · assumption
  · split
    · exact isAbsolute_append hBase path
    · exact isAbsolute_append hBase (slash :: path)

/-!
# Parts that count
-/

/-- Neither empty nor a single dot. Such a part is cut off on its own. -/
def Counts (part : Path) : Prop :=
  ¬(part = [] ∨ part = [dot])

instance (part : Path) : Decidable (Counts part) :=
  inferInstanceAs (Decidable ¬(part = [] ∨ part = [dot]))

def upToLast (parts : List Path) : List Path :=
  parts.rdropWhile fun part => decide (¬Counts part)

theorem upToLast_snoc_of_counts {name : Path} (h : Counts name) (parts : List Path) :
    upToLast (parts ++ [name]) = parts ++ [name] :=
  List.rdropWhile_concat_neg _ _ _ (by simpa using h)

theorem upToLast_snoc_of_not_counts {part : Path} (h : ¬Counts part) (parts : List Path) :
    upToLast (parts ++ [part]) = upToLast parts :=
  List.rdropWhile_concat_pos _ _ _ (by simpa using h)

theorem counts_of_upToLast_snoc {parts above : List Path} {name : Path}
    (h : upToLast parts = above ++ [name]) : Counts name := by
  induction parts using List.reverseRecOn with
  | nil =>
      rcases List.append_eq_nil_iff.mp h.symm with ⟨_, hNil⟩
      cases hNil
  | append_singleton parts last ih =>
      by_cases hLast : Counts last
      · rw [upToLast_snoc_of_counts hLast] at h
        cases (List.append_inj' h rfl).2
        exact hLast
      · rw [upToLast_snoc_of_not_counts hLast] at h
        exact ih h

theorem upToLast_of_counts {names : List Path} (h : ∀ name ∈ names, Counts name) :
    upToLast names = names := by
  rcases List.eq_nil_or_concat names with rfl | ⟨above, name, rfl⟩
  · rfl
  · rw [List.concat_eq_append] at h ⊢
    have hName := h name (List.mem_append_right above (List.mem_singleton_self name))
    exact upToLast_snoc_of_counts hName above

end Path

namespace FileTree

open CatalogAudit.Path (slash dot)
open Utf8 (Bytes)

/-!
# The path of a location
-/

/-- The path of a location behind the first slash. -/
def spelled (location : Location) : Path :=
  [slash].intercalate location

theorem pathTo_eq_cons (location : Location) : pathTo location = slash :: spelled location :=
  rfl

theorem isAbsolute_pathTo (location : Location) : Path.isAbsolute (pathTo location) = true :=
  rfl

theorem spelled_singleton (name : Name) : spelled [name] = name := by
  simp [spelled, List.intercalate]

theorem spelled_cons {location : Location} (hNonempty : location ≠ []) (name : Name) :
    spelled (name :: location) = name ++ slash :: spelled location := by
  obtain ⟨next, rest, rfl⟩ := List.exists_cons_of_ne_nil hNonempty
  simp [spelled, List.intercalate]

theorem spelled_snoc {location : Location} (hNonempty : location ≠ []) (name : Name) :
    spelled (location ++ [name]) = spelled location ++ slash :: name := by
  induction location with
  | nil => exact absurd rfl hNonempty
  | cons first location ih =>
      cases location with
      | nil =>
          rw [List.singleton_append, spelled_cons (List.cons_ne_nil name []), spelled_singleton,
            spelled_singleton]
      | cons next rest =>
          have hRest := List.cons_ne_nil next rest
          rw [List.cons_append, spelled_cons (List.append_ne_nil_of_left_ne_nil hRest [name]),
            ih hRest, spelled_cons hRest, List.append_assoc]
          rfl

theorem reverse_spelled_snoc (location : Location) (name : Name) :
    ∃ rest, (spelled (location ++ [name])).reverse = name.reverse ++ rest ∧
      (rest = [] ∨ rest.head? = some slash) ∧ rest.drop 1 = (spelled location).reverse := by
  by_cases hNil : location = []
  · subst hNil
    refine ⟨[], ?_, Or.inl rfl, rfl⟩
    rw [List.nil_append, spelled_singleton, List.append_nil]
  · refine ⟨slash :: (spelled location).reverse, ?_, Or.inr rfl, rfl⟩
    rw [spelled_snoc hNil]
    simp

theorem trimReversed_name {name : Name} (hSlash : slash ∉ name) (hName : Path.Counts name)
    (rest : Path) : Path.trimReversed (name.reverse ++ rest) = name.reverse ++ rest := by
  rw [← List.mem_reverse] at hSlash
  have hDot : name.reverse ≠ [dot] := by
    intro hEq
    apply hName
    right
    rw [← List.reverse_inj, hEq]
    rfl
  cases hBytes : name.reverse with
  | nil => exact absurd (Or.inl (List.reverse_eq_nil_iff.mp hBytes)) hName
  | cons b bs =>
      rw [hBytes] at hSlash hDot
      unfold Path.trimReversed
      split
      · rename_i hEq
        cases hEq
        exact absurd (List.mem_cons_self ..) hSlash
      · rename_i hEq
        cases bs with
        | nil =>
            cases hEq
            exact absurd rfl hDot
        | cons next bs =>
            cases hEq
            exact absurd (List.mem_cons_of_mem _ (List.mem_cons_self ..)) hSlash
      · rename_i hEq
        cases bs with
        | nil =>
            cases hEq
            exact absurd rfl hDot
        | cons next bs => cases hEq
      · rfl

/-- What is trimmed from the end of a path are its last parts up to one that counts. -/
theorem trimReversed_spelled {parts : List Name} (hSlash : ∀ part ∈ parts, slash ∉ part) :
    Path.trimReversed (spelled parts).reverse = (spelled (Path.upToLast parts)).reverse := by
  induction parts using List.reverseRecOn with
  | nil => rfl
  | append_singleton parts last ih =>
      have hLast := hSlash last (List.mem_append_right parts (List.mem_singleton_self last))
      have hParts := ih fun part hPart => hSlash part (List.mem_append_left [last] hPart)
      rcases reverse_spelled_snoc parts last with ⟨rest, hChars, hRest, hDrop⟩
      by_cases hCounts : Path.Counts last
      · rw [Path.upToLast_snoc_of_counts hCounts, hChars, trimReversed_name hLast hCounts]
      · rw [Path.upToLast_snoc_of_not_counts hCounts, ← hParts, ← hDrop, hChars]
        -- an empty part leaves its slash, a single dot the dot and its slash
        rcases Decidable.not_not.mp hCounts with rfl | rfl
        · rcases hRest with rfl | hHead
          · rfl
          · rcases List.head?_eq_some_iff.mp hHead with ⟨more, rfl⟩
            rfl
        · rcases hRest with rfl | hHead
          · rfl
          · rcases List.head?_eq_some_iff.mp hHead with ⟨more, rfl⟩
            rfl

theorem splitStart_pathTo (parts : List Name) :
    Path.splitStart (pathTo parts) = ([slash], spelled parts) :=
  rfl

theorem parent?_pathTo_of_upToLast_nil {parts : List Name}
    (hSlash : ∀ part ∈ parts, slash ∉ part) (hNone : Path.upToLast parts = []) :
    Path.parent? (pathTo parts) = none := by
  have hTrim := trimReversed_spelled hSlash
  rw [hNone] at hTrim
  have hNil : Path.trimReversed (spelled parts).reverse = [] := hTrim
  unfold Path.parent?
  rw [splitStart_pathTo]
  simp only [hNil]
  decide

/-- The last part that counts is cut off, and so is what does not count before it. -/
theorem parent?_pathTo_of_upToLast_snoc {parts above : List Name} {name : Name}
    (hSlash : ∀ part ∈ parts, slash ∉ part) (hLast : Path.upToLast parts = above ++ [name]) :
    Path.parent? (pathTo parts) = some (pathTo (Path.upToLast above)) := by
  have hInitial : ∀ part ∈ above ++ [name], slash ∉ part := by
    rw [← hLast]
    intro part hPart
    exact hSlash part ((List.rdropWhile_prefix _ parts).subset hPart)
  have hAbove := fun part hPart => hInitial part (List.mem_append_left [name] hPart)
  have hName := hInitial name (List.mem_append_right above (List.mem_singleton_self name))
  rcases reverse_spelled_snoc above name with ⟨rest, hChars, hRest, hDrop⟩
  have hCut : (name.reverse ++ rest).dropWhile (· ≠ slash) = rest := by
    have hNone : ∀ b ∈ name.reverse, decide (b ≠ slash) = true := by
      intro b hMem
      rw [decide_eq_true_eq]
      rintro rfl
      exact hName (List.mem_reverse.mp hMem)
    rw [List.dropWhile_append_of_pos hNone]
    rcases hRest with rfl | hHead
    · rfl
    · rcases List.head?_eq_some_iff.mp hHead with ⟨more, rfl⟩
      rfl
  have hNonempty : name.reverse ++ rest ≠ [] := by
    have hEmpty : name ≠ [] := fun hEq => Path.counts_of_upToLast_snoc hLast (Or.inl hEq)
    simp [hEmpty]
  rcases List.exists_cons_of_ne_nil hNonempty with ⟨b, bs, hCons⟩
  have hTrim := trimReversed_spelled hSlash
  rw [hLast, hChars, hCons] at hTrim
  unfold Path.parent?
  rw [splitStart_pathTo]
  simp only [hTrim]
  rw [← hCons, hCut, hDrop, trimReversed_spelled hAbove, List.reverse_reverse]
  rfl

theorem parent?_pathTo {location : Location} (hNames : ∀ name ∈ location, IsFileName name)
    {name : Name} (hName : IsFileName name) :
    Path.parent? (pathTo (location ++ [name])) = some (pathTo location) := by
  have hAll : ∀ other ∈ location ++ [name], IsFileName other := by
    intro other hOther
    rcases List.mem_append.mp hOther with hMem | hMem
    · exact hNames other hMem
    · rw [List.mem_singleton.mp hMem]
      exact hName
  have hParent := parent?_pathTo_of_upToLast_snoc (fun other hOther => (hAll other hOther).noSlash)
    (Path.upToLast_snoc_of_counts hName.notSkipped location)
  rw [Path.upToLast_of_counts fun other hOther => (hNames other hOther).notSkipped] at hParent
  exact hParent

theorem pieces_pathTo {parts : List Name} (hNonempty : parts ≠ [])
    (hSlash : ∀ part ∈ parts, slash ∉ part) : Path.pieces (pathTo parts) = [] :: parts := by
  have hCut := SourceScan.pieces_intercalate hNonempty hSlash
  unfold Path.pieces at hCut ⊢
  rw [pathTo_eq_cons, Text.splitOn, if_pos rfl]
  exact congrArg ([] :: ·) hCut

theorem Disk.locate_pathTo {disk : Disk} {location : Location} (hNonempty : location ≠ [])
    (hNames : ∀ name ∈ location, IsFileName name)
    (hCheck : Disk.checkPath (pathTo location) = .ok ()) {content : Utf8.Bytes}
    (hFile : disk.top.at? location = some (.file content)) (last : Bool) :
    disk.locate last (pathTo location) = .ok (.present location (.file content)) := by
  have hStart : disk.startOf (pathTo location) = [] := by
    unfold Disk.startOf
    rw [if_pos (isAbsolute_pathTo location)]
  have hPieces := pieces_pathTo hNonempty fun name hName => (hNames name hName).noSlash
  rw [Disk.locate_of_checkPath hCheck, hStart, hPieces]
  show follow anyAccess disk.top last (followLinks anyAccess disk.top last 39) []
    ([] :: location) = _
  rw [follow_skipped (Or.inl rfl)]
  exact follow_names hNonempty hNames hFile

/-!
# The paths above a location
-/

theorem ancestors_pathTo_nil : Path.ancestors (pathTo []) = [pathTo []] := by
  unfold Path.ancestors
  split
  · rename_i parent hParent
    cases hParent
  · rfl

theorem ancestors_pathTo_snoc {location : Location} (hNames : ∀ name ∈ location, IsFileName name)
    {name : Name} (hName : IsFileName name) :
    Path.ancestors (pathTo (location ++ [name])) =
      pathTo (location ++ [name]) :: Path.ancestors (pathTo location) := by
  have hParent := parent?_pathTo hNames hName
  rw [Path.ancestors]
  split
  · rename_i parent hSome
    cases hParent.symm.trans hSome
    rfl
  · rename_i hNone
    cases hParent.symm.trans hNone

theorem isAbsolute_of_mem_ancestors {location : Location}
    (hNames : ∀ name ∈ location, IsFileName name) {path : Path}
    (h : path ∈ Path.ancestors (pathTo location)) : Path.isAbsolute path = true := by
  induction location using List.reverseRecOn with
  | nil =>
      rw [ancestors_pathTo_nil, List.mem_singleton] at h
      rw [h]
      exact isAbsolute_pathTo []
  | append_singleton above name ih =>
      have hAbove : ∀ other ∈ above, IsFileName other := fun other hOther =>
        hNames other (List.mem_append_left [name] hOther)
      have hName := hNames name (List.mem_append_right above (List.mem_singleton_self name))
      rw [ancestors_pathTo_snoc hAbove hName] at h
      rcases List.mem_cons.mp h with rfl | hMem
      · exact isAbsolute_pathTo _
      · exact ih hAbove hMem

theorem getLast?_pathTo_snoc (location : Location) {name : Name} (hName : IsFileName name) :
    (pathTo (location ++ [name])).getLast? ≠ some slash := by
  rcases reverse_spelled_snoc location name with ⟨rest, hBytes, _⟩
  intro hLast
  rw [pathTo_eq_cons, List.getLast?_eq_head?_reverse, List.reverse_cons, hBytes] at hLast
  cases hReverse : name.reverse with
  | nil => exact hName.ne_nil (List.reverse_eq_nil_iff.mp hReverse)
  | cons b bs =>
      rw [hReverse] at hLast
      cases hLast
      have hMem : slash ∈ name.reverse := by
        rw [hReverse]
        exact List.mem_cons_self ..
      exact hName.noSlash (List.mem_reverse.mp hMem)

theorem join_pathTo {location : Location} (hNames : ∀ name ∈ location, IsFileName name)
    {name : Name} (hName : IsFileName name) :
    Path.join (pathTo location) name = pathTo (location ++ [name]) := by
  have hNonempty : pathTo location ≠ [] := List.cons_ne_nil slash _
  unfold Path.join
  rw [Path.isAbsolute_eq_false hName.noSlash]
  simp only [Bool.false_eq_true, if_false, hNonempty, false_or]
  rcases List.eq_nil_or_concat location with rfl | ⟨above, last, rfl⟩
  · have hSlash : (pathTo []).getLast? = some slash := rfl
    rw [if_pos hSlash, List.nil_append, pathTo_eq_cons [name], spelled_singleton]
    rfl
  · rw [List.concat_eq_append] at hNames ⊢
    have hLast := hNames last (List.mem_append_right above (List.mem_singleton_self last))
    rw [if_neg (getLast?_pathTo_snoc above hLast), pathTo_eq_cons, pathTo_eq_cons,
      spelled_snoc (List.append_ne_nil_of_right_ne_nil above (List.cons_ne_nil last []))]
    rfl

end FileTree
end CatalogAudit
