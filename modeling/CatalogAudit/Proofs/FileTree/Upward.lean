import CatalogAudit.Proofs.FileTree.Above
import Mathlib.Data.List.Pairwise

/-!
# Going up from a path

An absolute path is cut off behind one of its names to get a directory above it, and the first slash
alone is above all. Going up from a path comes to these directories, the nearest first, whatever
empty parts and single dots the path has between its names.
-/

namespace CatalogAudit
namespace FileTree

open CatalogAudit.Path (slash)

/-!
# Fronts of a list of parts
-/

/-- Parts up to a name, or none, with a name behind them. -/
structure IsFrontOf (front parts : List Name) : Prop where
  exists_behind : ∃ behind, parts = front ++ behind ∧ ∃ name ∈ behind, Path.Counts name
  endsInName : ∀ last, front.getLast? = some last → Path.Counts last

theorem IsFrontOf.length_lt {front parts : List Name} (h : IsFrontOf front parts) :
    front.length < parts.length := by
  rcases h.exists_behind with ⟨behind, rfl, name, hName, _⟩
  have hPos := List.length_pos_of_mem hName
  rw [List.length_append]
  omega

theorem IsFrontOf.subset {front parts : List Name} (h : IsFrontOf front parts) :
    front ⊆ parts := by
  rcases h.exists_behind with ⟨behind, rfl, _⟩
  exact List.subset_append_left front behind

theorem IsFrontOf.append {front parts : List Name} (h : IsFrontOf front parts)
    (more : List Name) : IsFrontOf front (parts ++ more) := by
  rcases h.exists_behind with ⟨behind, rfl, name, hName, hCounts⟩
  exact ⟨⟨behind ++ more, List.append_assoc .., name, List.mem_append_left more hName, hCounts⟩,
    h.endsInName⟩

theorem exists_append_upToLast (parts : List Name) :
    ∃ rest, parts = Path.upToLast parts ++ rest ∧ ∀ part ∈ rest, ¬Path.Counts part := by
  refine ⟨parts.rtakeWhile fun part => decide (¬Path.Counts part), ?_, ?_⟩
  · exact (List.rdropWhile_append_rtakeWhile).symm
  · intro part hPart
    simpa using List.mem_rtakeWhile_imp hPart

theorem counts_of_getLast?_upToLast {parts : List Name} {last : Name}
    (h : (Path.upToLast parts).getLast? = some last) : Path.Counts last := by
  rcases List.getLast?_eq_some_iff.mp h with ⟨above, hAbove⟩
  exact Path.counts_of_upToLast_snoc hAbove

theorem not_isFrontOf_of_upToLast_nil {parts : List Name} (h : Path.upToLast parts = [])
    (front : List Name) : ¬IsFrontOf front parts := by
  intro hFront
  rcases exists_append_upToLast parts with ⟨rest, hParts, hRest⟩
  rw [h, List.nil_append] at hParts
  rcases hFront.exists_behind with ⟨behind, hBehind, name, hName, hCounts⟩
  refine hRest name ?_ hCounts
  rw [← hParts, hBehind]
  exact List.mem_append_right front hName

theorem subset_of_append_eq {between rest longer behind : List Name} {name : Name}
    (h : between ++ name :: rest = longer ++ behind) : longer ⊆ between ∨ behind ⊆ rest := by
  rcases List.append_eq_append_iff.mp h with ⟨past, hLonger, hRest⟩ | ⟨left', hBetween, _⟩
  · cases past with
    | nil =>
        left
        rw [hLonger, List.append_nil]
        exact List.Subset.refl between
    | cons first past =>
        right
        rw [(List.cons.inj hRest).2]
        exact List.subset_append_right past behind
  · left
    rw [hBetween]
    exact List.subset_append_left longer left'

theorem isFrontOf_iff_of_upToLast_snoc {parts above : List Name} {name : Name}
    (h : Path.upToLast parts = above ++ [name]) {front : List Name} :
    IsFrontOf front parts ↔
      front = Path.upToLast above ∨ IsFrontOf front (Path.upToLast above) := by
  rcases exists_append_upToLast parts with ⟨rest, hParts, hRest⟩
  rcases exists_append_upToLast above with ⟨between, hAbove, hBetween⟩
  have hName := Path.counts_of_upToLast_snoc h
  have hSplit : parts = Path.upToLast above ++ (between ++ name :: rest) := by
    rw [hParts, h, ← List.append_assoc, ← hAbove]
    simp
  constructor
  · intro hFront
    rcases hFront.exists_behind with ⟨behind, hBehind, other, hOther, hCounts⟩
    rw [hSplit] at hBehind
    rcases List.append_eq_append_iff.mp hBehind with
      ⟨longer, hLonger, hMore⟩ | ⟨missing, hMissing, _⟩
    · rcases List.eq_nil_or_concat longer with rfl | ⟨init, last, rfl⟩
      · left
        rw [hLonger, List.append_nil]
      · -- a longer front ends where no name stands or leaves no name behind
        rw [List.concat_eq_append] at hLonger hMore
        have hLast : Path.Counts last := by
          apply hFront.endsInName
          rw [hLonger, ← List.append_assoc, List.getLast?_concat]
        rcases subset_of_append_eq hMore with hInside | hInside
        · exact absurd hLast (hBetween last (hInside (List.mem_append_right init
            (List.mem_singleton_self last))))
        · exact absurd hCounts (hRest other (hInside hOther))
    · rcases List.eq_nil_or_concat missing with rfl | ⟨init, last, rfl⟩
      · left
        rw [hMissing, List.append_nil]
      · right
        rw [List.concat_eq_append] at hMissing
        refine ⟨⟨init ++ [last], hMissing, last, List.mem_append_right init
          (List.mem_singleton_self last), ?_⟩, hFront.endsInName⟩
        rw [← List.append_assoc] at hMissing
        exact Path.counts_of_upToLast_snoc hMissing
  · intro hFront
    rcases hFront with rfl | hFront
    · exact ⟨⟨_, hSplit, name, List.mem_append_right between (List.mem_cons_self ..), hName⟩,
        fun _ => counts_of_getLast?_upToLast⟩
    · rw [hSplit]
      exact hFront.append _

/-!
# The directories above a path
-/

/--
The texts of the paths above, by their parts. The path itself comes first, and each of the others is
above all that come before it.
-/
theorem exists_fronts {parts : List Name} (hSlash : ∀ part ∈ parts, slash ∉ part) :
    ∃ fronts, Path.ancestors (pathTo parts) = (parts :: fronts).map pathTo ∧
      (∀ front, front ∈ fronts ↔ IsFrontOf front parts) ∧
      (parts :: fronts).Pairwise fun lower upper => IsFrontOf upper lower := by
  rcases List.eq_nil_or_concat (Path.upToLast parts) with hNone | ⟨above, name, hLast⟩
  · have hParent := parent?_pathTo_of_upToLast_nil hSlash hNone
    refine ⟨[], ?_, ?_, List.pairwise_singleton ..⟩
    · rw [Path.ancestors]
      split
      · rename_i parent hSome
        cases hParent.symm.trans hSome
      · rfl
    · intro front
      exact iff_of_false List.not_mem_nil (not_isFrontOf_of_upToLast_nil hNone front)
  · rw [List.concat_eq_append] at hLast
    have hParent := parent?_pathTo_of_upToLast_snoc hSlash hLast
    have hIff : ∀ front, IsFrontOf front parts ↔
        front = Path.upToLast above ∨ IsFrontOf front (Path.upToLast above) :=
      fun _ => isFrontOf_iff_of_upToLast_snoc hLast
    have hNearest := (hIff (Path.upToLast above)).mpr (Or.inl rfl)
    have hShorter := hNearest.length_lt
    rcases exists_fronts fun part hPart => hSlash part (hNearest.subset hPart) with
      ⟨fronts, hAncestors, hMem, hPairwise⟩
    have hAll : ∀ front, front ∈ Path.upToLast above :: fronts ↔ IsFrontOf front parts := by
      intro front
      rw [List.mem_cons, hMem, hIff]
    refine ⟨Path.upToLast above :: fronts, ?_, hAll, ?_⟩
    · rw [Path.ancestors]
      split
      · rename_i parent hSome
        cases hParent.symm.trans hSome
        rw [hAncestors]
        rfl
      · rename_i hNone
        cases hParent.symm.trans hNone
    · exact List.pairwise_cons.mpr ⟨fun front hFront => (hAll front).mp hFront, hPairwise⟩
termination_by parts.length

end FileTree

namespace Path

open FileTree (pathTo)

/-!
# Paths as texts
-/

/-- The directory is the path up to one of its names, or the top, and more names follow behind. -/
def IsAbove (directory path : Path) : Prop :=
  ∃ front parts, pieces path = [] :: parts ∧ FileTree.IsFrontOf front parts ∧
    directory = pathTo front

def IsAtOrAbove (directory path : Path) : Prop :=
  directory = path ∨ IsAbove directory path

theorem eq_pathTo_of_pieces {path : Path} {parts : List Path} (hNonempty : parts ≠ [])
    (h : pieces path = [] :: parts) : path = pathTo parts := by
  have hJoined : [slash].intercalate (pieces path) = path := Text.intercalate_splitOn slash path
  rw [h] at hJoined
  exact hJoined.symm.trans (FileTree.spelled_cons hNonempty [])

theorem exists_pieces_of_isAbsolute {path : Path} (h : isAbsolute path = true) :
    ∃ parts, parts ≠ [] ∧ pieces path = [] :: parts := by
  rcases isAbsolute_iff.mp h with ⟨rest, rfl⟩
  exact ⟨pieces rest, pieces_ne_nil rest, rfl⟩

theorem isAbove_pathTo_iff {parts : List Path} (hSlash : ∀ part ∈ parts, slash ∉ part)
    {directory : Path} :
    IsAbove directory (pathTo parts) ↔
      ∃ front, FileTree.IsFrontOf front parts ∧ directory = pathTo front := by
  by_cases hNil : parts = []
  · subst hNil
    apply iff_of_false
    · intro h
      rcases h with ⟨front, parts, hPieces, hFront, _⟩
      have hTop : pieces (pathTo []) = [[], []] := by decide
      cases hTop.symm.trans hPieces
      exact FileTree.not_isFrontOf_of_upToLast_nil (by decide) front hFront
    · intro h
      rcases h with ⟨front, hFront, _⟩
      exact FileTree.not_isFrontOf_of_upToLast_nil rfl front hFront
  · have hPieces := FileTree.pieces_pathTo hNil hSlash
    constructor
    · intro h
      rcases h with ⟨front, others, hOthers, hFront, hDirectory⟩
      cases hPieces.symm.trans hOthers
      exact ⟨front, hFront, hDirectory⟩
    · intro h
      rcases h with ⟨front, hFront, hDirectory⟩
      exact ⟨front, parts, hPieces, hFront, hDirectory⟩

theorem noSlash_of_pieces {path : Path} {parts : List Path} (h : pieces path = [] :: parts) :
    ∀ part ∈ parts, slash ∉ part := by
  intro part hPart
  have hPiece : part ∈ pieces path := by
    rw [h]
    exact List.mem_cons_of_mem [] hPart
  exact noSlash_of_mem_pieces hPiece

/-- The ancestors are the path and the directories above it, and each is above those before it. -/
theorem ancestors_of_isAbsolute {path : Path} (h : isAbsolute path = true) :
    (∀ directory, directory ∈ ancestors path ↔ IsAtOrAbove directory path) ∧
      (ancestors path).Pairwise fun lower upper => IsAbove upper lower := by
  rcases exists_pieces_of_isAbsolute h with ⟨parts, hNonempty, hPieces⟩
  have hSlash := noSlash_of_pieces hPieces
  have hPath := eq_pathTo_of_pieces hNonempty hPieces
  subst hPath
  rcases FileTree.exists_fronts hSlash with ⟨fronts, hAncestors, hMem, hPairwise⟩
  rw [hAncestors]
  constructor
  · intro directory
    unfold IsAtOrAbove
    rw [isAbove_pathTo_iff hSlash, List.map_cons, List.mem_cons, List.mem_map]
    simp only [hMem, eq_comm (a := directory)]
  · rw [List.pairwise_map]
    refine hPairwise.imp_of_mem ?_
    intro lower upper hLower _ hFront
    have hParts : lower ⊆ parts := by
      rcases List.mem_cons.mp hLower with rfl | hLower
      · exact List.Subset.refl lower
      · exact ((hMem lower).mp hLower).subset
    exact (isAbove_pathTo_iff fun part hPart => hSlash part (hParts hPart)).mpr
      ⟨upper, hFront, rfl⟩

theorem components_pathTo {parts : List Path} (hSlash : ∀ part ∈ parts, slash ∉ part) :
    components (pathTo parts) = .root :: parts.filterMap inner? := by
  unfold components
  simp only [FileTree.isAbsolute_pathTo, if_true]
  by_cases hNil : parts = []
  · subst hNil
    decide
  · rw [FileTree.pieces_pathTo hNil hSlash]
    rfl

theorem IsAbove.exists_components {directory path : Path} (h : IsAbove directory path) :
    ∃ names, names ≠ [] ∧ components path = components directory ++ names := by
  rcases h with ⟨front, parts, hPieces, hFront, rfl⟩
  have hSlash := noSlash_of_pieces hPieces
  rcases hFront.exists_behind with ⟨behind, rfl, name, hName, hCounts⟩
  have hNonempty : front ++ behind ≠ [] :=
    List.ne_nil_of_mem (List.mem_append_right front hName)
  refine ⟨behind.filterMap inner?, ?_, ?_⟩
  · have hInner : inner? name ≠ none := by
      unfold inner?
      rw [if_neg hCounts]
      split
      · simp
      · simp
    intro hNone
    rw [List.filterMap_eq_nil_iff] at hNone
    exact hInner (hNone name hName)
  · rw [eq_pathTo_of_pieces hNonempty hPieces, components_pathTo hSlash,
      components_pathTo fun part hPart => hSlash part (List.mem_append_left behind hPart),
      List.filterMap_append]
    rfl

theorem IsAbove.length_components_lt {directory path : Path} (h : IsAbove directory path) :
    (components directory).length < (components path).length := by
  rcases h.exists_components with ⟨names, hNames, hPath⟩
  have hPos := List.length_pos_iff.mpr hNames
  rw [hPath, List.length_append]
  omega

theorem IsAbove.asymm {directory path : Path} (h : IsAbove directory path) :
    ¬IsAbove path directory := by
  intro hBack
  exact absurd h.length_components_lt (Nat.lt_asymm hBack.length_components_lt)

theorem isAbove_or_isAbove {path directory other : Path} (hPath : isAbsolute path = true)
    (hDirectory : IsAtOrAbove directory path) (hOther : IsAtOrAbove other path)
    (hNe : directory ≠ other) : IsAbove directory other ∨ IsAbove other directory := by
  rcases ancestors_of_isAbsolute hPath with ⟨hMem, hOrder⟩
  have hSymm : Std.Symm fun a b => IsAbove a b ∨ IsAbove b a := ⟨fun _ _ => Or.symm⟩
  have hEither : (ancestors path).Pairwise fun a b => IsAbove a b ∨ IsAbove b a :=
    hOrder.imp Or.inr
  exact hEither.forall ((hMem directory).mpr hDirectory) ((hMem other).mpr hOther) hNe

end Path
end CatalogAudit
