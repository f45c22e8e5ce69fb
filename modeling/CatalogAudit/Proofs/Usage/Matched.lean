import CatalogAudit.Proofs.Usage.SecondRun

/-!
# Keys that have been matched

A text can be looked for in several passes, since longer keys leave it again when they are cut. What
one pass has matched, no later pass reports. A pass that finds the text in a content would find it
again, and a pass that takes it from the cache meets the same record later on, since no pass drops a
key from the record of a file whose content is the same.
-/

namespace CatalogAudit
namespace Usage

/-- Some file is taken to hold the key: the cache vouches for it, or the content holds it. -/
def IsHit (files : List SourceFile) (cache : Option MatchCache) (key : String) : Prop :=
  ∃ file ∈ files, Confirms cache file key ∨ file.Contains key

section Hits

variable {maxDepth : DepthBound} {files : List SourceFile} {cache : Option MatchCache}
  {text : String}

theorem mem_survivors_search_iff_not_isHit {candidates : KeySet} :
    text ∈ (search candidates files cache).survivors ↔
      text ∈ candidates ∧ ¬IsHit files cache text := by
  rw [mem_survivors_search]
  apply and_congr_right
  intro _
  unfold IsHit Absent
  simp only [not_exists, not_and, not_or]
  constructor
  · exact fun h file hFile => ⟨h.2 file hFile, h.1 file hFile⟩
  · exact fun h => ⟨fun file hFile => (h file hFile).2, fun file hFile => (h file hFile).1⟩

/-- A pass changes what the cache vouches for, but not what is hit. -/
theorem isHit_cache_search (hNames : OneFilePerName files) (candidates : KeySet) :
    IsHit files (search candidates files cache).cache text ↔ IsHit files cache text := by
  cases cache with
  | none => exact Iff.rfl
  | some cache =>
      have hAfter := cache_search_some candidates files cache
      rw [hAfter]
      unfold IsHit
      apply exists_congr
      intro file
      apply and_congr_right
      intro hFile
      rw [confirms_iff_holds, confirms_iff_holds]
      exact agreeOn_search hNames hAfter file hFile text

/--
The survivors of every pass are told by the cache that the passes start with. The induction is on
the place of the pass, and each pass hands the same hits on to the next one.
-/
theorem mem_getElem?_survivors_iff_not_isHit (hNames : OneFilePerName files) {depth : Nat}
    {first : KeySet} {place : Nat} {set : KeySet}
    (h : (passes maxDepth files depth first cache).survivors[place]? = some set) :
    text ∈ set ↔
      text ∈ candidatesAt first (passes maxDepth files depth first cache).survivors place ∧
        ¬IsHit files cache text := by
  induction place generalizing depth first cache with
  | zero =>
      by_cases hGo : Proceeds maxDepth depth first
      · rw [survivors_passes_of_proceeds hGo] at h
        cases h
        exact mem_survivors_search_iff_not_isHit
      · rw [passes_of_not_proceeds hGo] at h
        cases h
  | succ place ih =>
      by_cases hGo : Proceeds maxDepth depth first
      · rw [survivors_passes_of_proceeds hGo] at h ⊢
        rw [candidatesAt_cons, ← isHit_cache_search hNames first]
        exact ih h
      · rw [passes_of_not_proceeds hGo] at h
        cases h

theorem not_reports_of_isHit (hNames : OneFilePerName files) {keys : KeySet}
    (hHit : IsHit files cache text) (depth : Nat) :
    ¬Reports (run maxDepth keys files cache).findings depth text := by
  intro h
  rcases exists_survivors_of_reports h with ⟨place, survivors, _, hPlace, hText⟩
  exact ((mem_getElem?_survivors_iff_not_isHit hNames hPlace).mp hText).2 hHit

end Hits

/--
A text that a pass has looked for and has not left over is reported at no depth, with any cache or
none, even if a later pass looks for it again.
-/
theorem not_reports_of_matched (maxDepth : DepthBound) (keys : KeySet) {files : List SourceFile}
    (hNames : (files.map (·.name)).Nodup) (cache : Option MatchCache) {depth : Nat}
    {survivors : KeySet}
    (hPass : (run maxDepth keys files cache).findings.depths.get? (depth + 1) = some survivors)
    {text : String}
    (hCandidate : text ∈
      candidates depth (textsAt keys (run maxDepth keys files cache).findings.depths depth))
    (hMatched : text ∉ survivors) (later : Nat) :
    ¬Reports (run maxDepth keys files cache).findings later text := by
  rw [get?_depths_run] at hPass
  rw [candidates_textsAt_run] at hCandidate
  have hOne := oneFilePerName_of_nodup hNames
  apply not_reports_of_isHit hOne
  by_contra hNot
  exact hMatched ((mem_getElem?_survivors_iff_not_isHit hOne hPass).mpr ⟨hCandidate, hNot⟩)

/-- The cache alone holds that the file has the key. -/
def claimedFile : SourceFile := .make "x.ts" "zzz"

def claimedCache : MatchCache where
  path := bytesOf ".i18n-validator.json"
  records := .ofList [("x.ts", ⟨claimedFile.hash, .ofList ["a"]⟩)]

def nestedKeys : KeySet := .ofList ["a", "a.b.c"]

theorem not_reports_of_matched_nestedKeys :
    let depths :=
      (run .unbounded nestedKeys [claimedFile] (some claimedCache)).findings.depths
    "a" ∈ candidates 0 (textsAt nestedKeys depths 0) ∧
      "a" ∈ candidates 2 (textsAt nestedKeys depths 2) ∧
      depths.get? 1 = some (.ofList ["a.b.c"]) ∧
      ¬claimedFile.Contains "a" ∧
      ∀ later, ¬Reports
        (run .unbounded nestedKeys [claimedFile] (some claimedCache)).findings later "a" := by
  intro depths
  have hPass : depths.get? 1 = some (.ofList ["a.b.c"]) := by
    decide +kernel
  have hAbsent : ¬claimedFile.Contains "a" := by
    rw [← SourceFile.occursIn_content]
    decide +kernel
  refine ⟨by decide +kernel, by decide +kernel, hPass, hAbsent, ?_⟩
  exact not_reports_of_matched .unbounded nestedKeys (by decide) (some claimedCache) hPass
    (by decide +kernel) (by decide +kernel)

end Usage
end CatalogAudit
