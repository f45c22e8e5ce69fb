import CatalogAudit.Proofs.Usage.DepthMap
import CatalogAudit.Proofs.Usage.Records
import Mathlib.Data.List.Nodup

/-!
# The order of the files

Files come in no particular order. As long as they have different names, their records are told
apart, so a run finds and records the same in whatever order it takes them. Without a cache not even
the names matter, but only which contents there are.
-/

namespace CatalogAudit
namespace Usage

/-!
# Files in another order
-/

section Order

variable {files others : List SourceFile}

/-- What is remembered for one file leaves the other records alone, so the order is free. -/
theorem rememberAll_of_perm {searches others : List FileSearch} (h : searches.Perm others)
    (hNames : (searches.map (·.file.name)).Nodup) (cache : MatchCache) :
    rememberAll cache searches = rememberAll cache others := by
  refine h.foldl_eq' ?_ cache
  intro first hFirst second hSecond cache
  by_cases hName : first.file.name = second.file.name
  · have hSame : first = second := List.inj_on_of_nodup_map hNames hFirst hSecond hName
    rw [hSame]
  · exact cache.remember_comm hName _ _ _ _

theorem survivors_search_of_perm (h : files.Perm others) (candidates : KeySet)
    (cache : Option MatchCache) :
    (search candidates files cache).survivors = (search candidates others cache).survivors := by
  apply SortedSet.ext_mem
  intro key
  rw [mem_survivors_search, mem_survivors_search]
  unfold Absent
  simp only [h.mem_iff]

theorem cache_search_of_perm (h : files.Perm others) (hNames : (files.map (·.name)).Nodup)
    (candidates : KeySet) (cache : Option MatchCache) :
    (search candidates files cache).cache = (search candidates others cache).cache := by
  cases cache with
  | none => rfl
  | some cache =>
      have hSearches := h.map (searchFile candidates (some cache))
      have hSearchNames :
          ((files.map (searchFile candidates (some cache))).map (·.file.name)).Nodup := by
        rw [List.map_map]
        exact hNames
      exact congrArg some (rememberAll_of_perm hSearches hSearchNames cache)

theorem passes_of_perm (maxDepth : DepthBound) (h : files.Perm others)
    (hNames : (files.map (·.name)).Nodup) (depth : Nat) (candidates : KeySet)
    (cache : Option MatchCache) :
    (passes maxDepth files depth candidates cache).survivors =
        (passes maxDepth others depth candidates cache).survivors ∧
      (passes maxDepth files depth candidates cache).cache =
        (passes maxDepth others depth candidates cache).cache := by
  refine passes_of_related Eq ?_ rfl
  intro candidates cache other hSame
  subst hSame
  exact ⟨survivors_search_of_perm h candidates cache,
    cache_search_of_perm h hNames candidates cache⟩

end Order

/-!
# Files with the same contents
-/

/-- Each content is that of some file in both lists or in neither. -/
def SameContents (files others : List SourceFile) : Prop :=
  ∀ content, content ∈ files.map (·.content) ↔ content ∈ others.map (·.content)

theorem absent_iff_contents {files : List SourceFile} {key : String} :
    Absent files key ↔
      ∀ content ∈ files.map (·.content), ¬key.toList <:+: content.toList := by
  unfold Absent SourceFile.Contains
  simp

theorem survivors_passes_of_sameContents (maxDepth : DepthBound) {files others : List SourceFile}
    (h : SameContents files others) (depth : Nat) (candidates : KeySet) :
    (passes maxDepth files depth candidates none).survivors =
      (passes maxDepth others depth candidates none).survivors := by
  refine (passes_of_related (fun cache other => cache = none ∧ other = none) ?_ ⟨rfl, rfl⟩).1
  intro candidates cache other hNone
  rcases hNone with ⟨rfl, rfl⟩
  refine ⟨?_, rfl, rfl⟩
  apply SortedSet.ext_mem
  intro key
  rw [mem_survivors_search_none, mem_survivors_search_none, absent_iff_contents,
    absent_iff_contents]
  simp only [h _]

/-!
# The whole run
-/

/--
Files with different names may come in any order, with any cache or none: the findings are the same
and so is the cache afterwards. Without a cache files with the same contents have the same findings,
whatever their names are and however often they are repeated.
-/
theorem run_of_perm (maxDepth : DepthBound) (keys : KeySet) (files others : List SourceFile) :
    (files.Perm others → (files.map (·.name)).Nodup → ∀ cache : Option MatchCache,
      (run maxDepth keys files cache).findings = (run maxDepth keys others cache).findings ∧
        (run maxDepth keys files cache).cache = (run maxDepth keys others cache).cache) ∧
      (SameContents files others →
        (run maxDepth keys files none).findings = (run maxDepth keys others none).findings) := by
  constructor
  · intro hPerm hNames cache
    rcases passes_of_perm maxDepth hPerm hNames 0 keys cache with ⟨hSurvivors, hCache⟩
    exact ⟨findings_run_congr hSurvivors, hCache⟩
  · intro hContents
    exact findings_run_congr (survivors_passes_of_sameContents maxDepth hContents 0 keys)

theorem run_of_perm_two :
    let keys : KeySet := .ofList ["menu.open", "home"]
    let files : List SourceFile := [.make "a.ts" "t(menu)", .make "b.ts" "t(home)"]
    let renamed : List SourceFile :=
      [.make "c.ts" "t(home)", .make "c.ts" "t(menu)", .make "d.ts" "t(home)"]
    let cache : MatchCache := ⟨bytesOf "src/.i18n-validator.json", .ofList [("a.ts",
      ⟨Digest.fingerprint "a.ts" "t(menu)", .ofList ["menu.open"]⟩)]⟩
    files.Perm files.reverse ∧ (files.map (·.name)).Nodup ∧ SameContents files renamed ∧
      (run .unbounded keys files (some cache)).findings =
        (run .unbounded keys files.reverse (some cache)).findings ∧
      (run .unbounded keys files (some cache)).cache =
        (run .unbounded keys files.reverse (some cache)).cache ∧
      (run .unbounded keys files none).findings = (run .unbounded keys renamed none).findings := by
  intro keys files renamed cache
  have hPerm : files.Perm files.reverse := (List.reverse_perm files).symm
  have hNames : (files.map (·.name)).Nodup := by decide
  have hContents : SameContents files renamed := by
    intro content
    simp [files, renamed, SourceFile.make, or_comm]
  rcases (run_of_perm .unbounded keys files files.reverse).1 hPerm hNames (some cache) with
    ⟨hFindings, hCache⟩
  exact ⟨hPerm, hNames, hContents, hFindings, hCache,
    (run_of_perm .unbounded keys files renamed).2 hContents⟩

end Usage
end CatalogAudit
