import CatalogAudit.Proofs.Usage.CacheEffect
import CatalogAudit.Proofs.Usage.CanonicalFile

/-!
# Running again

A run that starts with what the run before has recorded finds the same keys, although it looks at
the contents less often, and it records nothing new. This holds of any first cache, trustworthy or
not, as long as keys, files, and depth are the same.
-/

namespace CatalogAudit

theorem MatchCache.holds_keepOnly_iff {cache : MatchCache} {files : List SourceFile}
    {name hash key : String} :
    (cache.keepOnly files).Holds name hash key ↔
      name ∈ files.map (·.name) ∧ cache.Holds name hash key := by
  unfold Holds
  simp only [get?_keepOnly, Option.filter_eq_some_iff, List.contains_iff_mem]
  constructor
  · intro h
    rcases h with ⟨record, ⟨hRecord, hName⟩, hRest⟩
    exact ⟨hName, record, hRecord, hRest⟩
  · intro h
    rcases h with ⟨hName, record, hRecord, hRest⟩
    exact ⟨record, ⟨hRecord, hName⟩, hRest⟩

namespace Usage

/-!
# The same hits with two caches

A cache that holds a key for a file saves a look at the content, or else hides that the key is not
there. Two caches that do so for the same keys cannot be told apart by what is found.
-/

/-- For each file the two caches leave the same keys to be missed. -/
def AgreeOn (files : List SourceFile) (cache other : MatchCache) : Prop :=
  ∀ file ∈ files, ∀ key,
    (cache.Holds file.name file.hash key ∨ file.Contains key) ↔
      (other.Holds file.name file.hash key ∨ file.Contains key)

section Agreement

variable {maxDepth : DepthBound} {files : List SourceFile} {cache other : MatchCache}

theorem mem_survivors_search_some {candidates : KeySet} {key : String} :
    key ∈ (search candidates files (some cache)).survivors ↔
      key ∈ candidates ∧
        ∀ file ∈ files, ¬(cache.Holds file.name file.hash key ∨ file.Contains key) := by
  rw [mem_survivors_search]
  simp only [confirms_iff_holds, Absent]
  constructor
  · intro h
    rcases h with ⟨hKey, hAbsent, hUnconfirmed⟩
    refine ⟨hKey, ?_⟩
    intro file hFile hHit
    rcases hHit with hHolds | hContains
    · exact hUnconfirmed file hFile hHolds
    · exact hAbsent file hFile hContains
  · intro h
    exact ⟨h.1, fun file hFile hContains => h.2 file hFile (Or.inr hContains),
      fun file hFile hHolds => h.2 file hFile (Or.inl hHolds)⟩

theorem survivors_search_of_agreeOn (h : AgreeOn files cache other) (candidates : KeySet) :
    (search candidates files (some cache)).survivors =
      (search candidates files (some other)).survivors := by
  apply SortedSet.ext_mem
  intro key
  rw [mem_survivors_search_some, mem_survivors_search_some]
  constructor
  · intro hMissed
    exact ⟨hMissed.1, fun file hFile hHit => hMissed.2 file hFile ((h file hFile key).mpr hHit)⟩
  · intro hMissed
    exact ⟨hMissed.1, fun file hFile hHit => hMissed.2 file hFile ((h file hFile key).mp hHit)⟩

/-- A pass adds only keys that the file contains, so it makes no difference to the hits. -/
theorem agreeOn_search (hNames : OneFilePerName files) {candidates : KeySet}
    {after : MatchCache}
    (hAfter : (search candidates files (some cache)).cache = some after) :
    AgreeOn files after cache := by
  intro file hFile key
  rw [holds_search_of_mem hNames hFile hAfter, and_iff_right rfl, or_assoc,
    or_iff_right_of_imp And.right]

theorem survivors_passes_of_agreeOn (hNames : OneFilePerName files) {depth : Nat}
    {candidates : KeySet} (h : AgreeOn files cache other) :
    (passes maxDepth files depth candidates (some cache)).survivors =
      (passes maxDepth files depth candidates (some other)).survivors := by
  refine (passes_of_related (fun first second => ∃ cache other, first = some cache ∧
    second = some other ∧ AgreeOn files cache other) ?_ ⟨cache, other, rfl, rfl, h⟩).1
  intro candidates first second hBoth
  rcases hBoth with ⟨cache, other, rfl, rfl, h⟩
  have hPass := cache_search_some candidates files cache
  have hPass' := cache_search_some candidates files other
  refine ⟨survivors_search_of_agreeOn h candidates, _, _, hPass, hPass', ?_⟩
  intro file hFile key
  exact ((agreeOn_search hNames hPass file hFile key).trans (h file hFile key)).trans
    (agreeOn_search hNames hPass' file hFile key).symm

theorem findings_run_of_agreeOn (hNames : OneFilePerName files) (keys : KeySet)
    (h : AgreeOn files cache other) :
    (run maxDepth keys files (some cache)).findings =
      (run maxDepth keys files (some other)).findings :=
  findings_run_congr (survivors_passes_of_agreeOn hNames h)

end Agreement

/-!
# The second run

It starts with the records of its own files, as the first run has left them.
-/

section Again

variable {maxDepth : DepthBound} {keys : KeySet} {files : List SourceFile}
  {cache after again : MatchCache}

theorem agreeOn_again (hNames : OneFilePerName files)
    (hAfter : (run maxDepth keys files (some cache)).cache = some after)
    (hAgain : ∀ name hash key,
      again.Holds name hash key ↔ (after.keepOnly files).Holds name hash key) :
    AgreeOn files again cache := by
  intro file hFile key
  have hMem := List.mem_map_of_mem (f := SourceFile.name) hFile
  rw [hAgain, MatchCache.holds_keepOnly_iff, holds_passes_of_mem hNames hFile rfl hAfter,
    and_iff_right hMem, or_assoc, or_iff_right_of_imp And.right]

theorem findings_run_again (hNames : OneFilePerName files)
    (hAfter : (run maxDepth keys files (some cache)).cache = some after)
    (hAgain : ∀ name hash key,
      again.Holds name hash key ↔ (after.keepOnly files).Holds name hash key) :
    (run maxDepth keys files (some again)).findings =
      (run maxDepth keys files (some cache)).findings :=
  findings_run_of_agreeOn hNames keys (agreeOn_again hNames hAfter hAgain)

/-- What the second run tries has been tried by the first, so there is nothing to add. -/
theorem holds_run_again (hNames : OneFilePerName files)
    (hAfter : (run maxDepth keys files (some cache)).cache = some after)
    (hAgain : ∀ name hash key,
      again.Holds name hash key ↔ (after.keepOnly files).Holds name hash key)
    {last : MatchCache} (hLast : (run maxDepth keys files (some again)).cache = some last)
    (name hash key : String) :
    (last.keepOnly files).Holds name hash key ↔ (after.keepOnly files).Holds name hash key := by
  -- If there is a pass, a record of a scanned file has what was held and what has been tried. The
  -- second run tries the same and holds all of it already.
  by_cases hGo : Proceeds maxDepth 0 keys
  · have hSurvivors : (passes maxDepth files 0 (candidates 0 keys) (some again)).survivors =
        (passes maxDepth files 0 (candidates 0 keys) (some cache)).survivors :=
      survivors_passes_of_agreeOn hNames (agreeOn_again hNames hAfter hAgain)
    constructor
    · intro h
      rcases MatchCache.holds_keepOnly_iff.mp h with ⟨hName, hHolds⟩
      rcases List.mem_map.mp hName with ⟨file, hFile, rfl⟩
      have hHash := eq_hash_of_holds_passes hNames hFile rfl hGo hLast hHolds
      subst hHash
      rcases (holds_passes_of_mem hNames hFile rfl hLast).mp hHolds with hOld | hTried
      · exact (hAgain _ _ _).mp hOld
      · rw [hSurvivors] at hTried
        have hFirst := (holds_passes_of_mem hNames hFile rfl hAfter).mpr (Or.inr hTried)
        exact MatchCache.holds_keepOnly_iff.mpr ⟨hName, hFirst⟩
    · intro h
      rcases MatchCache.holds_keepOnly_iff.mp h with ⟨hName, hHolds⟩
      rcases List.mem_map.mp hName with ⟨file, hFile, rfl⟩
      have hHash := eq_hash_of_holds_passes hNames hFile rfl hGo hAfter hHolds
      subst hHash
      have hKept := (holds_passes_of_mem hNames hFile rfl hLast).mpr
        (Or.inl ((hAgain _ _ _).mpr h))
      exact MatchCache.holds_keepOnly_iff.mpr ⟨hName, hKept⟩
  · have hSame : last = again := by
      have hStop : (passes maxDepth files 0 keys (some again)).cache = some last := hLast
      rw [passes_of_not_proceeds hGo] at hStop
      cases hStop
      rfl
    rw [hSame, MatchCache.holds_keepOnly_iff, hAgain, MatchCache.holds_keepOnly_iff, and_self_left]

theorem fileText_run_written (hNames : OneFilePerName files)
    (hAfter : (run maxDepth keys files (some cache)).cache = some after) {path : Path}
    {last : MatchCache}
    (hLast : (run maxDepth keys files
      (some ⟨path, (after.keepOnly files).written⟩)).cache = some last) :
    (last.keepOnly files).fileText = (after.keepOnly files).fileText := by
  rw [MatchCache.fileText_eq_iff]
  apply MatchCache.written_eq_of_holds_iff
  exact holds_run_again hNames hAfter (fun _ _ _ => MatchCache.holds_mk_written) hLast

end Again

end Usage
end CatalogAudit
