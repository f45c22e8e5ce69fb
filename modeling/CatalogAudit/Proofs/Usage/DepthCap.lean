import CatalogAudit.Proofs.Ordered.Lookup
import CatalogAudit.Proofs.Usage.DepthMap

/-!
# The bound on the depth

A bounded run does what the unbounded run does until the bound is met, and then it ends. So its
depth map is the beginning of the other one, and so is what it tells about its passes.
-/

namespace CatalogAudit
namespace Usage

/-!
# Finished passes
-/

def isFinishedPass : Event → Bool
  | .passFinished .. => true
  | _ => false

/-- How many passes have been finished, by what has been told. -/
def finishedPasses (events : List Event) : Nat :=
  events.countP isFinishedPass

theorem finishedPasses_append (events more : List Event) :
    finishedPasses (events ++ more) = finishedPasses events + finishedPasses more :=
  List.countP_append

theorem finishedPasses_refreshEvents (cache : MatchCache) (name hash : String) :
    finishedPasses (cache.refreshEvents name hash) = 0 := by
  unfold MatchCache.refreshEvents
  split
  · split
    · rfl
    · rfl
  · rfl

theorem finishedPasses_searchEvents (cache : MatchCache) (searches : List FileSearch) :
    finishedPasses (searchEvents cache searches) = 0 := by
  induction searches generalizing cache with
  | nil => rfl
  | cons result searches ih =>
      have hScanned : finishedPasses [.fileScanned result.file.name result.cached.length
          result.found.length] = 0 := rfl
      rw [searchEvents, ← List.singleton_append, List.append_assoc, finishedPasses_append,
        finishedPasses_append, hScanned, finishedPasses_refreshEvents, ih]

theorem finishedPasses_search (candidates : KeySet) (files : List SourceFile)
    (cache : Option MatchCache) : finishedPasses (search candidates files cache).events = 0 := by
  cases cache with
  | none => rfl
  | some cache => exact finishedPasses_searchEvents cache _

section Passes

variable {maxDepth : DepthBound} {files : List SourceFile} {depth : Nat} {candidates : KeySet}
  {cache : Option MatchCache}

theorem events_passes_of_proceeds (h : Proceeds maxDepth depth candidates) :
    (passes maxDepth files depth candidates cache).events =
      (search candidates files cache).events ++
        .passFinished depth candidates.size (search candidates files cache).survivors.size ::
          (passes maxDepth files (depth + 1)
            (shortened (search candidates files cache).survivors)
            (search candidates files cache).cache).events := by
  unfold Proceeds at h
  rw [passes, dif_pos h]

theorem finishedPasses_passes :
    finishedPasses (passes maxDepth files depth candidates cache).events =
      (passes maxDepth files depth candidates cache).survivors.length := by
  induction depth, candidates, cache using passes.induct maxDepth files with
  | case1 depth candidates cache hGo pass =>
      rename_i ih
      have hFinished :
          finishedPasses [.passFinished depth candidates.size pass.survivors.size] = 1 := rfl
      rw [events_passes_of_proceeds hGo, survivors_passes_of_proceeds hGo, ← List.singleton_append,
        finishedPasses_append, finishedPasses_append, finishedPasses_search, hFinished, ih,
        List.length_cons, Nat.zero_add]
      exact Nat.add_comm 1 _
  | case2 depth candidates cache hStop =>
      rw [passes_of_not_proceeds hStop]
      rfl

end Passes

/-!
# Side by side

The bounded and the unbounded passes begin at the same depth with the same candidates and the same
cache, and as long as the bound admits a pass they go on to the same depth, candidates, and cache.
-/

section SideBySide

variable {n : Nat} {files : List SourceFile} {depth : Nat} {candidates : KeySet}
  {cache : Option MatchCache}

theorem proceeds_bounded_iff :
    Proceeds (.bounded n) depth candidates ↔
      depth < n ∧ Proceeds .unbounded depth candidates := by
  simp [Proceeds, DepthBound.admits]

theorem survivors_passes_bounded :
    (passes (.bounded n) files depth candidates cache).survivors =
      (passes .unbounded files depth candidates cache).survivors.take (n - depth) := by
  induction depth, candidates, cache using passes.induct .unbounded files with
  | case1 depth candidates cache hGo pass =>
      rename_i ih
      by_cases hDepth : depth < n
      · have hLeft : n - depth = n - (depth + 1) + 1 := by omega
        rw [survivors_passes_of_proceeds hGo,
          survivors_passes_of_proceeds (proceeds_bounded_iff.mpr ⟨hDepth, hGo⟩), hLeft,
          List.take_succ_cons, ih]
      · have hStop : ¬Proceeds (.bounded n) depth candidates := fun h =>
          hDepth (proceeds_bounded_iff.mp h).1
        have hNone : n - depth = 0 := by omega
        rw [passes_of_not_proceeds hStop, hNone, List.take_zero]
  | case2 depth candidates cache hEnd =>
      have hStop : ¬Proceeds (.bounded n) depth candidates := fun h =>
        hEnd (proceeds_bounded_iff.mp h).2
      rw [passes_of_not_proceeds hStop, passes_of_not_proceeds hEnd, List.take_nil]

theorem events_passes_bounded :
    (passes (.bounded n) files depth candidates cache).events <+:
      (passes .unbounded files depth candidates cache).events := by
  induction depth, candidates, cache using passes.induct .unbounded files with
  | case1 depth candidates cache hGo pass =>
      rename_i ih
      by_cases hDepth : depth < n
      · rw [events_passes_of_proceeds hGo,
          events_passes_of_proceeds (proceeds_bounded_iff.mpr ⟨hDepth, hGo⟩),
          List.prefix_append_right_inj, List.cons_prefix_cons]
        exact ⟨rfl, ih⟩
      · have hStop : ¬Proceeds (.bounded n) depth candidates := fun h =>
          hDepth (proceeds_bounded_iff.mp h).1
        rw [passes_of_not_proceeds hStop]
        exact List.nil_prefix
  | case2 depth candidates cache hEnd =>
      have hStop : ¬Proceeds (.bounded n) depth candidates := fun h =>
        hEnd (proceeds_bounded_iff.mp h).2
      rw [passes_of_not_proceeds hStop]
      exact List.nil_prefix

end SideBySide

/-!
# The bounded depth map
-/

theorem depthsFrom_one_take (n : Nat) (sets : List KeySet) :
    depthsFrom 1 (sets.take n) =
      (depthsFrom 1 sets).filter fun depth _ => decide (1 ≤ depth ∧ depth ≤ n) := by
  apply SortedMap.ext_get?
  intro depth
  rw [SortedMap.get?_filter]
  cases depth with
  | zero =>
      rw [get?_depthsFrom_of_lt Nat.zero_lt_one, get?_depthsFrom_of_lt Nat.zero_lt_one]
      rfl
  | succ place =>
      rw [Nat.add_comm, get?_depthsFrom_add, get?_depthsFrom_add, List.getElem?_take]
      cases sets[place]? with
      | none => simp
      | some keys =>
          by_cases hPlace : place < n
          · have hDepth : 1 ≤ 1 + place ∧ 1 + place ≤ n := by omega
            rw [if_pos hPlace, Option.filter_some, if_pos (decide_eq_true hDepth)]
          · have hDepth : ¬(1 ≤ 1 + place ∧ 1 + place ≤ n) := by omega
            rw [if_neg hPlace, Option.filter_some, if_neg (by simpa using hDepth)]

theorem get?_depths_bounded (n : Nat) (keys : KeySet) (files : List SourceFile)
    (cache : Option MatchCache) (place : Nat) :
    (run (.bounded n) keys files cache).findings.depths.get? (place + 1) =
      if place < n then (run .unbounded keys files cache).findings.depths.get? (place + 1)
      else none := by
  rw [get?_depths_run, get?_depths_run, survivors_passes_bounded, Nat.sub_zero,
    List.getElem?_take]

/-- The run is the free one up to the given depth, and it has nothing behind it. -/
structure IsCutAt (n : Nat) (capped free : Run) : Prop where
  total_eq : capped.findings.total = free.findings.total
  depths_eq : capped.findings.depths =
    free.findings.depths.filter fun depth _ => decide (1 ≤ depth ∧ depth ≤ n)
  finishedPasses_eq : finishedPasses capped.events = min n (finishedPasses free.events)
  finishedPasses_le : finishedPasses capped.events ≤ n
  events_prefix : capped.events <+: free.events

/--
A bound on the depth only ends a run early, whatever the cache holds or if there is none. The total
and the sets under the admitted depths are those of the unbounded run, at most as many passes take
place as the bound says, and a higher bound changes nothing that has been reported.
-/
theorem isCutAt_run_bounded (n : Nat) (keys : KeySet) (files : List SourceFile)
    (cache : Option MatchCache) :
    IsCutAt n (run (.bounded n) keys files cache) (run .unbounded keys files cache) ∧
      ∀ higher, n ≤ higher → ∀ depth survivors,
        (run (.bounded n) keys files cache).findings.depths.get? depth = some survivors →
          (run (.bounded higher) keys files cache).findings.depths.get? depth = some survivors := by
  have hSets : (passes (.bounded n) files 0 keys cache).survivors =
      (passes .unbounded files 0 keys cache).survivors.take n := survivors_passes_bounded
  have hPasses : finishedPasses (run (.bounded n) keys files cache).events =
      min n (finishedPasses (run .unbounded keys files cache).events) := by
    show finishedPasses (passes (.bounded n) files 0 keys cache).events =
      min n (finishedPasses (passes .unbounded files 0 keys cache).events)
    rw [finishedPasses_passes, finishedPasses_passes, hSets, List.length_take]
  constructor
  · constructor
    case total_eq => rfl
    case depths_eq =>
      show depthsFrom 1 (passes (.bounded n) files 0 keys cache).survivors = _
      rw [hSets]
      exact depthsFrom_one_take n _
    case finishedPasses_eq => exact hPasses
    case finishedPasses_le =>
      rw [hPasses]
      exact Nat.min_le_left n _
    case events_prefix => exact events_passes_bounded
  -- Depth `d + 1` has what the free run has there, if the bound admits it.
  · intro higher hHigher depth survivors hDepth
    cases depth with
    | zero =>
        have hNone := get?_depthsFrom_of_lt Nat.zero_lt_one
          (passes (.bounded n) files 0 keys cache).survivors
        cases hDepth.symm.trans hNone
    | succ place =>
        rw [get?_depths_bounded] at hDepth ⊢
        by_cases hPlace : place < n
        · rw [if_pos hPlace] at hDepth
          rw [if_pos (Nat.lt_of_lt_of_le hPlace hHigher), hDepth]
        · rw [if_neg hPlace] at hDepth
          cases hDepth

end Usage
end CatalogAudit
