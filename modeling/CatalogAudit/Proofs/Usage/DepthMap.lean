import CatalogAudit.Proofs.Usage.OnePass

/-!
# The passes and the depth map

The passes as a list of survivor sets, one step at a time, and the map that keeps these sets under
consecutive depths. What holds of the list at a place holds of the map at a depth.
-/

namespace CatalogAudit
namespace Usage

/-!
# One step of the passes
-/

section Steps

variable {maxDepth : DepthBound} {files : List SourceFile} {depth : Nat} {candidates : KeySet}
  {cache : Option MatchCache}

def Proceeds (maxDepth : DepthBound) (depth : Nat) (candidates : KeySet) : Prop :=
  maxDepth.admits depth = true ∧ candidates.isEmpty = false

theorem isEmpty_eq_false_iff {keys : KeySet} : keys.isEmpty = false ↔ ∃ key, key ∈ keys := by
  rw [← Bool.not_eq_true, SortedSet.isEmpty_iff]
  simp

theorem survivors_passes_of_proceeds (h : Proceeds maxDepth depth candidates) :
    (passes maxDepth files depth candidates cache).survivors =
      (search candidates files cache).survivors ::
        (passes maxDepth files (depth + 1)
          (shortened (search candidates files cache).survivors)
          (search candidates files cache).cache).survivors := by
  unfold Proceeds at h
  rw [passes, dif_pos h]

theorem cache_passes_of_proceeds (h : Proceeds maxDepth depth candidates) :
    (passes maxDepth files depth candidates cache).cache =
      (passes maxDepth files (depth + 1)
        (shortened (search candidates files cache).survivors)
        (search candidates files cache).cache).cache := by
  unfold Proceeds at h
  rw [passes, dif_pos h]

theorem passes_of_not_proceeds (h : ¬Proceeds maxDepth depth candidates) :
    passes maxDepth files depth candidates cache = ⟨[], cache, []⟩ := by
  unfold Proceeds at h
  rw [passes, dif_neg h]

end Steps

/--
Two sequences of passes stay side by side if each pass finds the same in both and keeps the relation
between the caches.
-/
theorem passes_of_related {maxDepth : DepthBound} {files others : List SourceFile}
    (Related : Option MatchCache → Option MatchCache → Prop)
    (hSearch : ∀ candidates cache other, Related cache other →
      (search candidates files cache).survivors = (search candidates others other).survivors ∧
        Related (search candidates files cache).cache (search candidates others other).cache)
    {depth : Nat} {candidates : KeySet} {cache other : Option MatchCache}
    (h : Related cache other) :
    (passes maxDepth files depth candidates cache).survivors =
        (passes maxDepth others depth candidates other).survivors ∧
      Related (passes maxDepth files depth candidates cache).cache
        (passes maxDepth others depth candidates other).cache := by
  induction depth, candidates, cache using passes.induct maxDepth files generalizing other with
  | case1 depth candidates cache hGo pass =>
      rename_i ih
      rcases hSearch candidates cache other h with ⟨hSame, hNext⟩
      rcases ih hNext with ⟨hRest, hCache⟩
      rw [survivors_passes_of_proceeds hGo, survivors_passes_of_proceeds hGo,
        cache_passes_of_proceeds hGo, cache_passes_of_proceeds hGo, ← hSame]
      exact ⟨congrArg _ hRest, hCache⟩
  | case2 depth candidates cache hStop =>
      rw [passes_of_not_proceeds hStop, passes_of_not_proceeds hStop]
      exact ⟨rfl, h⟩

theorem admits_of_le {maxDepth : DepthBound} {low high : Nat} (hLe : low ≤ high)
    (h : maxDepth.admits high = true) : maxDepth.admits low = true := by
  cases maxDepth with
  | unbounded => rfl
  | bounded n =>
      simp only [DepthBound.admits, decide_eq_true_eq] at h ⊢
      omega

/-!
# Sets under consecutive depths
-/

theorem entries_depthsFrom (depth : Nat) (sets : List KeySet) :
    (depthsFrom depth sets).entries = (List.range' depth sets.length).zip sets := by
  induction sets generalizing depth with
  | nil => rfl
  | cons keys rest ih =>
      have hSet : (depthsFrom depth (keys :: rest)).entries =
          SortedMap.setAscending depth keys ((List.range' (depth + 1) rest.length).zip rest) := by
        rw [← ih (depth + 1)]
        rfl
      rw [hSet]
      cases rest with
      | nil => rfl
      | cons next rest =>
          simp [SortedMap.setAscending, List.range'_succ]

theorem keys_depthsFrom (depth : Nat) (sets : List KeySet) :
    (depthsFrom depth sets).keys = List.range' depth sets.length := by
  unfold SortedMap.keys
  rw [entries_depthsFrom]
  exact List.map_fst_zip (by simp)

theorem get?_depthsFrom_add (depth : Nat) (sets : List KeySet) (i : Nat) :
    (depthsFrom depth sets).get? (depth + i) = sets[i]? := by
  induction sets generalizing depth i with
  | nil => rfl
  | cons keys rest ih =>
      unfold depthsFrom
      rw [SortedMap.get?_set]
      cases i with
      | zero => simp
      | succ i =>
          have hNext : depth + (i + 1) = depth + 1 + i := by omega
          rw [if_neg (by omega), hNext, ih, List.getElem?_cons_succ]

theorem get?_depthsFrom_of_lt {depth d : Nat} (h : d < depth) (sets : List KeySet) :
    (depthsFrom depth sets).get? d = none := by
  induction sets generalizing depth with
  | nil => rfl
  | cons keys rest ih =>
      unfold depthsFrom
      rw [SortedMap.get?_set, if_neg (by omega)]
      exact ih (by omega)

/-- The depth map of a run has no depth zero, and depth `d + 1` belongs to pass `d`. -/
theorem get?_depths_run (maxDepth : DepthBound) (keys : KeySet) (files : List SourceFile)
    (cache : Option MatchCache) (d : Nat) :
    (run maxDepth keys files cache).findings.depths.get? (d + 1) =
      (passes maxDepth files 0 keys cache).survivors[d]? := by
  rw [Nat.add_comm]
  exact get?_depthsFrom_add 1 _ d

theorem keys_depths_run (maxDepth : DepthBound) (keys : KeySet) (files : List SourceFile)
    (cache : Option MatchCache) :
    (run maxDepth keys files cache).findings.depths.keys =
      List.range' 1 (passes maxDepth files 0 keys cache).survivors.length :=
  keys_depthsFrom 1 _

/-- The key is among the survivors under this depth. A depth that is not there has none. -/
def Reports (findings : UnusedFindings) (depth : Nat) (key : String) : Prop :=
  ∃ survivors, findings.depths.get? depth = some survivors ∧ key ∈ survivors

/-- What is reported has survived some pass, and this is the pass one depth below. -/
theorem exists_survivors_of_reports {maxDepth : DepthBound} {keys : KeySet}
    {files : List SourceFile} {cache : Option MatchCache} {depth : Nat} {key : String}
    (h : Reports (run maxDepth keys files cache).findings depth key) :
    ∃ place survivors, depth = place + 1 ∧
      (passes maxDepth files 0 keys cache).survivors[place]? = some survivors ∧
      key ∈ survivors := by
  rcases h with ⟨survivors, hDepth, hKey⟩
  cases depth with
  | zero =>
      have hNone := get?_depthsFrom_of_lt Nat.zero_lt_one
        (passes maxDepth files 0 keys cache).survivors
      cases hDepth.symm.trans hNone
  | succ place =>
      rw [get?_depths_run] at hDepth
      exact ⟨place, survivors, rfl, hDepth, hKey⟩

theorem findings_run_congr {maxDepth : DepthBound} {keys : KeySet} {files others : List SourceFile}
    {cache other : Option MatchCache}
    (h : (passes maxDepth files 0 keys cache).survivors =
      (passes maxDepth others 0 keys other).survivors) :
    (run maxDepth keys files cache).findings = (run maxDepth keys others other).findings := by
  show UnusedFindings.mk keys.size (depthsFrom 1 (passes maxDepth files 0 keys cache).survivors) =
    ⟨keys.size, depthsFrom 1 (passes maxDepth others 0 keys other).survivors⟩
  rw [h]

end Usage
end CatalogAudit
