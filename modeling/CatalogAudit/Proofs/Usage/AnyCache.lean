import CatalogAudit.Proofs.Usage.DepthMap

/-!
# Runs with an arbitrary cache

A cache may hold anything, since it is read from a file that anyone can write. Whatever it holds,
it can only take keys out of a pass. The run with the cache therefore stays below the run without
one, pass by pass, although from the first hidden key on the two look for different texts.
-/

namespace CatalogAudit
namespace Usage

variable {maxDepth : DepthBound} {files : List SourceFile}

/-!
# Smaller candidates, smaller survivors
-/

theorem survivors_search_subset {small large : KeySet} (hSub : ∀ key ∈ small, key ∈ large)
    (cache : Option MatchCache) :
    ∀ key ∈ (search small files cache).survivors, key ∈ (search large files none).survivors := by
  intro key hKey
  rcases mem_survivors_search.mp hKey with ⟨hSmall, hAbsent, _⟩
  exact mem_survivors_search_none.mpr ⟨hSub key hSmall, hAbsent⟩

theorem shortened_subset {small large : KeySet} (hSub : ∀ key ∈ small, key ∈ large) :
    ∀ key ∈ shortened small, key ∈ shortened large := by
  intro key hKey
  rcases mem_shortened.mp hKey with ⟨hNonempty, longer, hLonger, hEq⟩
  exact mem_shortened.mpr ⟨hNonempty, longer, hSub longer hLonger, hEq⟩

theorem proceeds_of_subset {depth : Nat} {small large : KeySet}
    (hSub : ∀ key ∈ small, key ∈ large) (h : Proceeds maxDepth depth small) :
    Proceeds maxDepth depth large := by
  constructor
  · exact h.1
  · rcases isEmpty_eq_false_iff.mp h.2 with ⟨key, hKey⟩
    exact isEmpty_eq_false_iff.mpr ⟨key, hSub key hKey⟩

/-!
# The simulation

Both runs take one pass at a time. As long as the candidates with the cache are among those
without, so are the survivors, and hence the candidates of the next pass. The cache itself may be
replaced by any other between the passes.
-/

theorem getElem?_survivors_le {depth : Nat} {small large : KeySet}
    (hSub : ∀ key ∈ small, key ∈ large) {cache : Option MatchCache} {i : Nat} {survivors : KeySet}
    (hPlace : (passes maxDepth files depth small cache).survivors[i]? = some survivors) :
    ∃ plain, (passes maxDepth files depth large none).survivors[i]? = some plain ∧
      ∀ key ∈ survivors, Absent files key ∧ key ∈ plain := by
  induction i generalizing depth small large cache with
  | zero =>
      by_cases hGo : Proceeds maxDepth depth small
      · rw [survivors_passes_of_proceeds hGo] at hPlace
        rw [survivors_passes_of_proceeds (proceeds_of_subset hSub hGo)]
        cases hPlace
        refine ⟨(search large files none).survivors, rfl, ?_⟩
        intro key hKey
        exact ⟨(mem_survivors_search.mp hKey).2.1, survivors_search_subset hSub cache key hKey⟩
      · rw [passes_of_not_proceeds hGo] at hPlace
        cases hPlace
  | succ i ih =>
      by_cases hGo : Proceeds maxDepth depth small
      · rw [survivors_passes_of_proceeds hGo] at hPlace
        rw [survivors_passes_of_proceeds (proceeds_of_subset hSub hGo)]
        exact ih (shortened_subset (survivors_search_subset hSub cache)) hPlace
      · rw [passes_of_not_proceeds hGo] at hPlace
        cases hPlace

theorem length_survivors_le {depth : Nat} {small large : KeySet}
    (hSub : ∀ key ∈ small, key ∈ large) (cache : Option MatchCache) :
    (passes maxDepth files depth small cache).survivors.length ≤
      (passes maxDepth files depth large none).survivors.length := by
  apply Nat.le_of_not_lt
  intro hLt
  have hPlace := List.getElem?_eq_getElem hLt
  rcases getElem?_survivors_le hSub hPlace with ⟨plain, hPlain, _⟩
  rw [List.getElem?_eq_none (Nat.le_refl _)] at hPlain
  cases hPlain

/-!
# A cache invents nothing
-/

/--
Every key that a run with a cache reports is in no file and is reported at the same depth without
the cache. The depths that it reports are the first ones of those reported without the cache.
-/
theorem findings_run_cached_le (maxDepth : DepthBound) (keys : KeySet) (files : List SourceFile)
    (cache : MatchCache) :
    (∀ depth survivors key,
        (run maxDepth keys files (some cache)).findings.depths.get? depth = some survivors →
        key ∈ survivors →
        Absent files key ∧
          ∃ plain, (run maxDepth keys files none).findings.depths.get? depth = some plain ∧
            key ∈ plain) ∧
      (run maxDepth keys files (some cache)).findings.depths.keys <+:
        (run maxDepth keys files none).findings.depths.keys := by
  have hSub : ∀ key ∈ keys, key ∈ keys := fun _ h => h
  constructor
  · intro depth survivors key hDepth hKey
    cases depth with
    | zero =>
        have hNone := get?_depthsFrom_of_lt Nat.zero_lt_one
          (passes maxDepth files 0 keys (some cache)).survivors
        exact absurd (hDepth.symm.trans hNone) (by simp)
    | succ depth =>
        rw [get?_depths_run] at hDepth ⊢
        rcases getElem?_survivors_le hSub hDepth with ⟨plain, hPlain, hLe⟩
        exact ⟨(hLe key hKey).1, plain, hPlain, (hLe key hKey).2⟩
  · rw [keys_depths_run, keys_depths_run]
    have hLength : (passes maxDepth files 0 keys (some cache)).survivors.length ≤
        (passes maxDepth files 0 keys none).survivors.length :=
      length_survivors_le hSub (some cache)
    obtain ⟨more, hMore⟩ := Nat.exists_eq_add_of_le hLength
    rw [hMore, ← List.range'_append_1]
    exact List.prefix_append _ _

end Usage
end CatalogAudit
