import CatalogAudit.Proofs.FileTree.WriteRead
import CatalogAudit.Source.Scan

/-!
# The parts of joined paths

A name joined to a path becomes its last part, and a slash at the end of the path leaves no trace
but an empty part. So the parts behind a root are the names that have been joined to it, and the
normalized name of a file tells which names these are.
-/

namespace CatalogAudit

namespace Text

/-!
# Splitting
-/

variable {α : Type} [DecidableEq α] {sep : α}

theorem splitOn_of_not_mem {cs : List α} (h : sep ∉ cs) : splitOn sep cs = [cs] := by
  induction cs with
  | nil => rfl
  | cons c cs ih =>
      have hTail := ih (fun hMem => h (List.mem_cons_of_mem c hMem))
      have hHead : c ≠ sep := fun hEq => h (hEq ▸ List.mem_cons_self ..)
      rw [splitOn, if_neg hHead, hTail]

theorem splitOn_append_sep (xs ys : List α) :
    splitOn sep (xs ++ sep :: ys) = splitOn sep xs ++ splitOn sep ys := by
  induction xs with
  | nil =>
      simp [splitOn]
  | cons x xs ih =>
      rw [List.cons_append, splitOn, splitOn, ih]
      by_cases hx : x = sep
      · rw [if_pos hx, if_pos hx, List.cons_append]
      · rw [if_neg hx, if_neg hx]
        cases hPieces : splitOn sep xs with
        | nil => exact absurd hPieces (splitOn_ne_nil sep xs)
        | cons piece pieces => rfl

theorem not_mem_of_mem_splitOn {cs piece : List α} (h : piece ∈ splitOn sep cs) :
    sep ∉ piece := by
  induction cs generalizing piece with
  | nil =>
      rw [splitOn, List.mem_singleton] at h
      rw [h]
      exact List.not_mem_nil
  | cons c cs ih =>
      rw [splitOn] at h
      by_cases hc : c = sep
      · rw [if_pos hc] at h
        rcases List.mem_cons.mp h with rfl | hMem
        · exact List.not_mem_nil
        · exact ih hMem
      · rw [if_neg hc] at h
        cases hPieces : splitOn sep cs with
        | nil => exact absurd hPieces (splitOn_ne_nil sep cs)
        | cons first rest =>
            rw [hPieces] at h
            rcases List.mem_cons.mp h with rfl | hMem
            · intro hSep
              rcases List.mem_cons.mp hSep with hEq | hFirst
              · exact hc hEq.symm
              · exact ih (by rw [hPieces]; exact List.mem_cons_self ..) hFirst
            · exact ih (by rw [hPieces]; exact List.mem_cons_of_mem first hMem)

/-- Pieces without the separator come back when their joined text is cut. -/
theorem splitOn_intercalate {pieces : List (List α)} (hNonempty : pieces ≠ [])
    (h : ∀ piece ∈ pieces, sep ∉ piece) : splitOn sep ([sep].intercalate pieces) = pieces := by
  induction pieces with
  | nil => exact absurd rfl hNonempty
  | cons piece pieces ih =>
      have hHead := splitOn_of_not_mem (h piece (List.mem_cons_self ..))
      cases pieces with
      | nil => simpa [List.intercalate] using hHead
      | cons next rest =>
          have hTail := ih (List.cons_ne_nil next rest)
            (fun other hOther => h other (List.mem_cons_of_mem piece hOther))
          have hJoin : [sep].intercalate (piece :: next :: rest) =
              piece ++ sep :: [sep].intercalate (next :: rest) := by
            simp [List.intercalate]
          rw [hJoin, splitOn_append_sep, hHead, hTail]
          rfl

end Text

namespace Path

/-!
# Joining
-/

theorem pieces_ne_nil (path : Path) : pieces path ≠ [] :=
  Text.splitOn_ne_nil slash path

theorem noSlash_of_mem_pieces {path part : Path} (h : part ∈ pieces path) : slash ∉ part :=
  Text.not_mem_of_mem_splitOn h

theorem isAbsolute_eq_false {name : Path} (h : slash ∉ name) : isAbsolute name = false := by
  unfold isAbsolute
  cases name with
  | nil => rfl
  | cons b bs =>
      have hHead : b ≠ slash := fun hEq => h (hEq ▸ List.mem_cons_self ..)
      simpa using hHead

theorem join_ne_nil {base : Path} (hBase : base ≠ []) {name : Path} (hName : slash ∉ name) :
    join base name ≠ [] := by
  unfold join
  rw [isAbsolute_eq_false hName]
  simp only [Bool.false_eq_true, if_false]
  split
  · simp [hBase]
  · simp [hBase]

theorem isAbsolute_join {base : Path} (hBase : base ≠ []) {name : Path} (hName : slash ∉ name) :
    isAbsolute (join base name) = isAbsolute base := by
  obtain ⟨b, bs, rfl⟩ := List.exists_cons_of_ne_nil hBase
  unfold join
  rw [isAbsolute_eq_false hName]
  simp only [Bool.false_eq_true, if_false]
  split
  · rfl
  · rfl

/-- A name that stands for itself wherever it is a part of a path. -/
structure IsPart (name : Path) : Prop where
  notSkipped : ¬(name = [] ∨ name = [dot])
  notUp : name ≠ [dot, dot]
  noSlash : slash ∉ name

/-- A joined name is the last part. Before it are the parts of the path without a last slash. -/
theorem exists_pieces_join {base : Path} (hBase : base ≠ []) {name : Path}
    (hName : slash ∉ name) :
    ∃ front, front ≠ [] ∧ (pieces base = front ∨ pieces base = front ++ [[]]) ∧
      pieces (join base name) = front ++ [name] := by
  have hSplitName : Text.splitOn slash name = [name] := Text.splitOn_of_not_mem hName
  unfold join
  rw [isAbsolute_eq_false hName]
  simp only [Bool.false_eq_true, if_false, hBase, false_or]
  by_cases hSlash : base.getLast? = some slash
  · rw [if_pos hSlash]
    rcases List.getLast?_eq_some_iff.mp hSlash with ⟨init, rfl⟩
    refine ⟨Text.splitOn slash init, Text.splitOn_ne_nil slash init, Or.inr ?_, ?_⟩
    · unfold pieces
      rw [Text.splitOn_append_sep]
      rfl
    · unfold pieces
      rw [List.append_assoc, List.singleton_append, Text.splitOn_append_sep, hSplitName]
  · rw [if_neg hSlash]
    refine ⟨pieces base, pieces_ne_nil base, Or.inl rfl, ?_⟩
    unfold pieces
    rw [Text.splitOn_append_sep, hSplitName]

theorem filterMap_inner?_of_isPart {name : Path} (h : IsPart name) :
    [name].filterMap inner? = [.name name] := by
  have hInner : inner? name = some (.name name) := by
    unfold inner?
    rw [if_neg h.notSkipped, if_neg h.notUp]
  rw [List.filterMap_cons, hInner, List.filterMap_nil]

theorem components_join (base : Path) {name : Path} (h : IsPart name) :
    components (join base name) = components base ++ [.name name] := by
  have hRelative := isAbsolute_eq_false h.noSlash
  by_cases hBase : base = []
  · subst hBase
    have hPieces : pieces name = [name] := Text.splitOn_of_not_mem h.noSlash
    have hStart : name ≠ [dot] := fun hDot => h.notSkipped (Or.inr hDot)
    have hJoin : join [] name = name := by
      unfold join
      rw [hRelative]
      simp
    unfold components
    simp only [hJoin, hRelative, hPieces, filterMap_inner?_of_isPart h]
    simp [hStart, isAbsolute, pieces, Text.splitOn, inner?]
  · rcases exists_pieces_join hBase h.noSlash with ⟨front, hFront, hParts, hJoin⟩
    obtain ⟨first, rest, rfl⟩ := List.exists_cons_of_ne_nil hFront
    have hHead : (pieces base).head? = some first := by
      rcases hParts with hEq | hEq
      · rw [hEq]
        rfl
      · rw [hEq]
        rfl
    have hInner : (pieces base).filterMap inner? = (first :: rest).filterMap inner? := by
      rcases hParts with hEq | hEq
      · rw [hEq]
      · rw [hEq, List.filterMap_append]
        simp [inner?]
    unfold components
    simp only [isAbsolute_join hBase h.noSlash, hJoin, hHead, hInner]
    rw [List.filterMap_append, filterMap_inner?_of_isPart h, List.append_assoc]
    rfl

end Path

namespace FileTree

open CatalogAudit.Path (slash dot)

/-- The name can stand in a directory, and no path takes it for more than one part. -/
structure IsFileName (name : Name) : Prop extends IsEntryName name where
  noSlash : slash ∉ name

instance (name : Name) : Decidable (IsFileName name) :=
  decidable_of_iff
    ((¬(name = [] ∨ name = [dot]) ∧ name ≠ [dot, dot] ∧ name.length ≤ maxNameLength) ∧
      slash ∉ name)
    ⟨fun h => ⟨⟨h.1.1, h.1.2.1, h.1.2.2⟩, h.2⟩,
      fun h => ⟨⟨h.notSkipped, h.notUp, h.short⟩, h.noSlash⟩⟩

theorem IsFileName.ne_nil {name : Name} (h : IsFileName name) : name ≠ [] :=
  fun hEmpty => h.notSkipped (Or.inl hEmpty)

theorem IsFileName.isPart {name : Name} (h : IsFileName name) : Path.IsPart name :=
  ⟨h.notSkipped, h.notUp, h.noSlash⟩

end FileTree

namespace SourceScan

open FileTree (IsFileName Location Name)
open CatalogAudit.Path (slash)

/-!
# Paths below a root
-/

theorem pathBelow_cons (root name : Path) (names : Location) :
    pathBelow root (name :: names) = pathBelow (Path.join root name) names :=
  rfl

theorem exists_pieces_pathBelow {root : Path} (hRoot : root ≠ []) {names : Location}
    (hNonempty : names ≠ []) (hNames : ∀ name ∈ names, IsFileName name) :
    ∃ front, front ≠ [] ∧ (Path.pieces root = front ∨ Path.pieces root = front ++ [[]]) ∧
      Path.pieces (pathBelow root names) = front ++ names := by
  induction names generalizing root with
  | nil => exact absurd rfl hNonempty
  | cons name names ih =>
      have hName := hNames name (List.mem_cons_self ..)
      rcases Path.exists_pieces_join hRoot hName.noSlash with ⟨front, hFront, hParts, hJoin⟩
      cases names with
      | nil => exact ⟨front, hFront, hParts, hJoin⟩
      | cons next rest =>
          rcases ih (Path.join_ne_nil hRoot hName.noSlash) (List.cons_ne_nil next rest)
            (fun other hOther => hNames other (List.mem_cons_of_mem name hOther)) with
            ⟨inner, _, hInner, hBelow⟩
          rw [hJoin] at hInner
          have hSame : inner = front ++ [name] := by
            rcases hInner with hEq | hEq
            · exact hEq.symm
            · exact absurd (List.append_inj' hEq rfl).2 (by simpa using hName.ne_nil)
          refine ⟨front, hFront, hParts, ?_⟩
          rw [pathBelow_cons, hBelow, hSame, List.append_assoc]
          rfl

theorem isAbsolute_pathBelow {root : Path} (hRoot : root ≠ []) {names : Location}
    (hNames : ∀ name ∈ names, IsFileName name) :
    Path.isAbsolute (pathBelow root names) = Path.isAbsolute root := by
  induction names generalizing root with
  | nil => rfl
  | cons name names ih =>
      have hName := (hNames name (List.mem_cons_self ..)).noSlash
      rw [pathBelow_cons, ih (Path.join_ne_nil hRoot hName)
        (fun other hOther => hNames other (List.mem_cons_of_mem name hOther)),
        Path.isAbsolute_join hRoot hName]

/-!
# Normalized names

The parts of the root are taken off again, so that only the names below it are left, with single
slashes between them. Different files get different names.
-/

theorem components_pathBelow (root : Path) {names : Location}
    (hNames : ∀ name ∈ names, Path.IsPart name) :
    Path.components (pathBelow root names) = Path.components root ++ names.map .name := by
  induction names generalizing root with
  | nil => exact (List.append_nil _).symm
  | cons name names ih =>
      have hName := hNames name (List.mem_cons_self ..)
      have hBehind := fun other hOther => hNames other (List.mem_cons_of_mem name hOther)
      rw [pathBelow_cons, ih (Path.join root name) hBehind, Path.components_join root hName,
        List.map_cons, List.append_assoc]
      rfl

theorem nameBelow_pathBelow (root : Path) {names : Location}
    (hNames : ∀ name ∈ names, Path.IsPart name) :
    Path.nameBelow root (pathBelow root names) = "/".intercalate (names.map Path.shown) := by
  have hBehind : Path.behind root (pathBelow root names) = names.map .name := by
    unfold Path.behind
    rw [components_pathBelow root hNames]
    simp
  unfold Path.nameBelow
  rw [hBehind, List.filterMap_map]
  show "/".intercalate (names.filterMap fun name => some (Path.shown name)) = _
  rw [List.filterMap_eq_map']

theorem pieces_intercalate {names : Location} (hNonempty : names ≠ [])
    (hNames : ∀ name ∈ names, slash ∉ name) : Path.pieces ([slash].intercalate names) = names :=
  Text.splitOn_intercalate hNonempty hNames

end SourceScan
end CatalogAudit
