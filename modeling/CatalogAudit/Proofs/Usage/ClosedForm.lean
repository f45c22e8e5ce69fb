import CatalogAudit.Proofs.Usage.DepthMap
import Mathlib.Logic.Function.Iterate

/-!
# The findings in closed form

Each pass is fed with what the pass before it left. Since a file that contains a key contains every
shorter beginning of it, a beginning that no file contains comes from keys that survived all
earlier passes. So the survivors of a pass can be read off the keys and the files at once.
-/

namespace CatalogAudit
namespace Usage

/-- The key without its last `depth` segments, empty if there are not so many. -/
def cut (depth : Nat) (key : String) : String :=
  KeyPath.dropLast^[depth] key

@[simp] theorem cut_zero (key : String) : cut 0 key = key := rfl

theorem cut_succ (depth : Nat) (key : String) :
    cut (depth + 1) key = KeyPath.dropLast (cut depth key) :=
  Function.iterate_succ_apply' KeyPath.dropLast depth key

theorem dropLast_empty : KeyPath.dropLast "" = "" := by
  decide

theorem ne_empty_of_dropLast_ne_empty {key : String} (h : KeyPath.dropLast key ≠ "") :
    key ≠ "" := by
  intro hEmpty
  apply h
  rw [hEmpty, dropLast_empty]

/-!
# Candidates and survivors without the passes

Full keys are never filtered. From the first cut on a key of too few segments counts no more.
-/

section Sets

variable (keys : KeySet) (files : List SourceFile)

/-- What is left of some key at this depth, and is in no file. -/
def IsUnmatched (depth : Nat) (text : String) : Prop :=
  (∃ key ∈ keys, text = cut depth key) ∧ (depth = 0 ∨ text ≠ "") ∧ Absent files text

/-- Some text is left to look for at this depth. -/
def IsReached : Nat → Prop
  | 0 => ∃ key, key ∈ keys
  | depth + 1 => ∃ key ∈ keys, Absent files (cut depth key) ∧ cut (depth + 1) key ≠ ""

def IsCandidate : Nat → String → Prop
  | 0, text => text ∈ keys
  | depth + 1, text =>
      text ≠ "" ∧ ∃ key ∈ keys, Absent files (cut depth key) ∧ text = cut (depth + 1) key

end Sets

variable {keys : KeySet} {files : List SourceFile}

theorem isReached_iff {depth : Nat} :
    IsReached keys files depth ↔ ∃ text, IsCandidate keys files depth text := by
  cases depth with
  | zero => exact Iff.rfl
  | succ depth =>
      constructor
      · intro h
        rcases h with ⟨key, hKey, hAbsent, hNonempty⟩
        exact ⟨cut (depth + 1) key, hNonempty, key, hKey, hAbsent, rfl⟩
      · intro h
        rcases h with ⟨text, hNonempty, key, hKey, hAbsent, hEq⟩
        subst hEq
        exact ⟨key, hKey, hAbsent, hNonempty⟩

theorem isUnmatched_iff {depth : Nat} {text : String} :
    IsUnmatched keys files depth text ↔ IsCandidate keys files depth text ∧ Absent files text := by
  cases depth with
  | zero => simp [IsUnmatched, IsCandidate]
  | succ depth =>
      constructor
      · intro h
        rcases h with ⟨⟨key, hKey, hEq⟩, hNonempty, hAbsent⟩
        have hBefore : Absent files (cut depth key) := by
          apply absent_of_absent_dropLast
          rw [← cut_succ, ← hEq]
          exact hAbsent
        exact ⟨⟨hNonempty.resolve_left (by omega), key, hKey, hBefore, hEq⟩, hAbsent⟩
      · intro h
        rcases h with ⟨⟨hNonempty, key, hKey, _, hEq⟩, hAbsent⟩
        exact ⟨⟨key, hKey, hEq⟩, Or.inr hNonempty, hAbsent⟩

theorem isCandidate_succ_iff {depth : Nat} {text : String} :
    IsCandidate keys files (depth + 1) text ↔
      text ≠ "" ∧ ∃ longer, IsUnmatched keys files depth longer ∧
        text = KeyPath.dropLast longer := by
  constructor
  · intro h
    rcases h with ⟨hNonempty, key, hKey, hAbsent, hEq⟩
    rw [cut_succ] at hEq
    have hLonger : cut depth key ≠ "" :=
      ne_empty_of_dropLast_ne_empty (hEq ▸ hNonempty)
    exact ⟨hNonempty, cut depth key, ⟨⟨key, hKey, rfl⟩, Or.inr hLonger, hAbsent⟩, hEq⟩
  · intro h
    rcases h with ⟨hNonempty, longer, ⟨⟨key, hKey, hLonger⟩, _, hAbsent⟩, hEq⟩
    subst hLonger
    exact ⟨hNonempty, key, hKey, hAbsent, by rw [cut_succ, hEq]⟩

theorem isReached_of_succ {depth : Nat} (h : IsReached keys files (depth + 1)) :
    IsReached keys files depth := by
  rw [isReached_iff] at h ⊢
  rcases h with ⟨text, hText⟩
  rcases isCandidate_succ_iff.mp hText with ⟨_, longer, hLonger, _⟩
  exact ⟨longer, (isUnmatched_iff.mp hLonger).1⟩

theorem isReached_of_le {low high : Nat} (hLe : low ≤ high) (h : IsReached keys files high) :
    IsReached keys files low := by
  induction hLe with
  | refl => exact h
  | step _ ih => exact ih (isReached_of_succ h)

/-!
# The passes have the closed form

The induction is on the place in the list of survivor sets. It goes from one pass to the next
because the candidates of each pass are those of the closed form.
-/

/-- The key set of a pass at this depth is the one of the closed form. -/
def HoldsCandidates (keys : KeySet) (files : List SourceFile) (depth : Nat) (candidates : KeySet) :
    Prop :=
  ∀ text, text ∈ candidates ↔ IsCandidate keys files depth text

theorem mem_survivors_iff_isUnmatched {depth : Nat} {candidates : KeySet}
    (h : HoldsCandidates keys files depth candidates) (text : String) :
    text ∈ (search candidates files none).survivors ↔ IsUnmatched keys files depth text := by
  rw [mem_survivors_search_none, isUnmatched_iff, h text]

theorem holdsCandidates_shortened {depth : Nat} {candidates : KeySet}
    (h : HoldsCandidates keys files depth candidates) :
    HoldsCandidates keys files (depth + 1)
      (shortened (search candidates files none).survivors) := by
  intro text
  rw [mem_shortened, isCandidate_succ_iff]
  simp only [mem_survivors_iff_isUnmatched h]

theorem proceeds_iff {maxDepth : DepthBound} {depth : Nat} {candidates : KeySet}
    (h : HoldsCandidates keys files depth candidates) :
    Proceeds maxDepth depth candidates ↔
      maxDepth.admits depth = true ∧ IsReached keys files depth := by
  unfold Proceeds
  rw [isEmpty_eq_false_iff, isReached_iff]
  simp only [h _]

theorem lt_length_survivors_iff {maxDepth : DepthBound} {depth : Nat} {candidates : KeySet}
    (h : HoldsCandidates keys files depth candidates) (i : Nat) :
    i < (passes maxDepth files depth candidates none).survivors.length ↔
      maxDepth.admits (depth + i) = true ∧ IsReached keys files (depth + i) := by
  induction i generalizing depth candidates with
  | zero =>
      by_cases hGo : Proceeds maxDepth depth candidates
      · rw [survivors_passes_of_proceeds hGo]
        simpa using (proceeds_iff h).mp hGo
      · rw [passes_of_not_proceeds hGo]
        simpa [proceeds_iff h] using hGo
  | succ i ih =>
      have hDepth : depth + (i + 1) = depth + 1 + i := by omega
      by_cases hGo : Proceeds maxDepth depth candidates
      · rw [survivors_passes_of_proceeds hGo, hDepth, ← ih (holdsCandidates_shortened h),
          List.length_cons]
        exact Nat.succ_lt_succ_iff
      · rw [passes_of_not_proceeds hGo]
        constructor
        · intro hLt
          exact absurd hLt (Nat.not_lt_zero _)
        · intro hReached
          have hLe : depth ≤ depth + (i + 1) := Nat.le_add_right _ _
          exact absurd ((proceeds_iff h).mpr
            ⟨admits_of_le hLe hReached.1, isReached_of_le hLe hReached.2⟩) hGo

theorem mem_getElem?_survivors_iff {maxDepth : DepthBound} {depth : Nat} {candidates : KeySet}
    (h : HoldsCandidates keys files depth candidates) {i : Nat} {survivors : KeySet}
    (hPlace : (passes maxDepth files depth candidates none).survivors[i]? = some survivors)
    (text : String) :
    text ∈ survivors ↔ IsUnmatched keys files (depth + i) text := by
  induction i generalizing depth candidates with
  | zero =>
      by_cases hGo : Proceeds maxDepth depth candidates
      · rw [survivors_passes_of_proceeds hGo] at hPlace
        cases hPlace
        exact mem_survivors_iff_isUnmatched h text
      · rw [passes_of_not_proceeds hGo] at hPlace
        cases hPlace
  | succ i ih =>
      by_cases hGo : Proceeds maxDepth depth candidates
      · rw [survivors_passes_of_proceeds hGo] at hPlace
        have hDepth : depth + (i + 1) = depth + 1 + i := by omega
        rw [hDepth]
        exact ih (holdsCandidates_shortened h) hPlace
      · rw [passes_of_not_proceeds hGo] at hPlace
        cases hPlace

/-!
# The depth map
-/

/--
A depth is in the map if the bound admits its pass and the pass before it leaves something to look
for, and then it holds every cut of a key that is in no file.
-/
theorem findings_run_none (maxDepth : DepthBound) (keys : KeySet) (files : List SourceFile) :
    (run maxDepth keys files none).findings.total = keys.size ∧
      (run maxDepth keys files none).findings.depths.get? 0 = none ∧
      ∀ depth,
        ((∃ survivors,
            (run maxDepth keys files none).findings.depths.get? (depth + 1) = some survivors) ↔
          maxDepth.admits depth = true ∧ IsReached keys files depth) ∧
        ∀ survivors,
          (run maxDepth keys files none).findings.depths.get? (depth + 1) = some survivors →
          ∀ text, text ∈ survivors ↔ IsUnmatched keys files depth text := by
  have hStart : HoldsCandidates keys files 0 keys := fun _ => Iff.rfl
  refine ⟨rfl, get?_depthsFrom_of_lt Nat.zero_lt_one _, ?_⟩
  intro depth
  rw [get?_depths_run]
  constructor
  · have hLength : depth < (passes maxDepth files 0 keys none).survivors.length ↔
        maxDepth.admits (0 + depth) = true ∧ IsReached keys files (0 + depth) :=
      lt_length_survivors_iff hStart depth
    rw [Nat.zero_add] at hLength
    rw [← hLength, ← Option.isSome_iff_exists]
    simp
  · intro survivors hPlace text
    have hMem := mem_getElem?_survivors_iff hStart hPlace text
    rwa [Nat.zero_add] at hMem

end Usage
end CatalogAudit
