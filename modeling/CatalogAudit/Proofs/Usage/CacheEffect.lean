import CatalogAudit.Proofs.Usage.DepthMap
import CatalogAudit.Proofs.Usage.Records
import CatalogAudit.Proofs.Usage.Staircase
import CatalogAudit.Proofs.Usage.Transparency

/-!
# What a run records

The files of a run have different names, so each of them has a record of its own. A pass adds to it
the candidates that the file contains, whatever else it does, and a record for other content is
started afresh. The records of other files are left alone. A file that comes up twice is searched
with the same result, so that does no harm.
-/

namespace CatalogAudit
namespace Usage

def OneFilePerName (files : List SourceFile) : Prop :=
  ∀ file ∈ files, ∀ other ∈ files, other.name = file.name → other = file

instance (files : List SourceFile) : Decidable (OneFilePerName files) :=
  inferInstanceAs
    (Decidable (∀ file ∈ files, ∀ other ∈ files, other.name = file.name → other = file))

theorem oneFilePerName_of_nodup {files : List SourceFile} (h : (files.map (·.name)).Nodup) :
    OneFilePerName files :=
  fun _ hFile _ hOther hName => List.inj_on_of_nodup_map h hOther hFile hName

/-!
# One pass
-/

section Searches

variable {name hash key : String}

def OneSearchPerName (searches : List FileSearch) : Prop :=
  ∀ result ∈ searches, ∀ other ∈ searches, other.file.name = result.file.name → other = result

theorem OneSearchPerName.of_cons {first : FileSearch} {searches : List FileSearch}
    (h : OneSearchPerName (first :: searches)) : OneSearchPerName searches :=
  fun result hResult other hOther =>
    h result (List.mem_cons_of_mem first hResult) other (List.mem_cons_of_mem first hOther)

/-- A search is the first of a list and the only one of its name, or it comes up later. -/
theorem OneSearchPerName.first_or_later {first : FileSearch} {searches : List FileSearch}
    (h : OneSearchPerName (first :: searches)) {result : FileSearch}
    (hResult : result ∈ first :: searches) :
    (result = first ∧ result.file.name ∉ searches.map (·.file.name)) ∨ result ∈ searches := by
  by_cases hLater : result.file.name ∈ searches.map (·.file.name)
  · rcases List.mem_map.mp hLater with ⟨other, hOther, hName⟩
    rw [h result hResult other (List.mem_cons_of_mem first hOther) hName] at hOther
    exact Or.inr hOther
  · rcases List.mem_cons.mp hResult with hFirst | hRest
    · exact Or.inl ⟨hFirst, hLater⟩
    · exact Or.inr hRest

theorem oneSearchPerName_map {files : List SourceFile} (h : OneFilePerName files)
    (candidates : KeySet) (cache : Option MatchCache) :
    OneSearchPerName (files.map (searchFile candidates cache)) := by
  intro result hResult other hOther hName
  rcases List.mem_map.mp hResult with ⟨file, hFile, rfl⟩
  rcases List.mem_map.mp hOther with ⟨file', hFile', rfl⟩
  have hSame : file' = file := h file hFile file' hFile' hName
  rw [hSame]

theorem get?_rememberAll_of_not_mem {cache : MatchCache} {searches : List FileSearch}
    (h : name ∉ searches.map (·.file.name)) :
    (rememberAll cache searches).get? name = cache.get? name := by
  induction searches generalizing cache with
  | nil => rfl
  | cons result searches ih =>
      rw [List.map_cons, List.mem_cons, not_or] at h
      refine (ih h.2).trans ?_
      rw [MatchCache.get?_remember, if_neg h.1]

theorem exists_get?_rememberAll {cache : MatchCache} {searches : List FileSearch}
    (hNames : OneSearchPerName searches) {result : FileSearch} (hResult : result ∈ searches) :
    ∃ keys, (rememberAll cache searches).get? result.file.name =
      some ⟨result.file.hash, keys⟩ := by
  induction searches generalizing cache with
  | nil => cases hResult
  | cons first searches ih =>
      rcases hNames.first_or_later hResult with ⟨rfl, hOnly⟩ | hLater
      · have hRecord := MatchCache.get?_remember cache result.file.name result.file.hash
          result.found result.file.name
        rw [if_pos rfl] at hRecord
        exact ⟨_, (get?_rememberAll_of_not_mem hOnly).trans hRecord⟩
      · exact ih hNames.of_cons hLater

theorem holds_rememberAll_of_not_mem {cache : MatchCache} {searches : List FileSearch}
    (h : name ∉ searches.map (·.file.name)) :
    (rememberAll cache searches).Holds name hash key ↔ cache.Holds name hash key := by
  unfold MatchCache.Holds
  rw [get?_rememberAll_of_not_mem h]

theorem holds_rememberAll_of_mem {cache : MatchCache} {searches : List FileSearch}
    (hNames : OneSearchPerName searches) {result : FileSearch} (hResult : result ∈ searches) :
    (rememberAll cache searches).Holds result.file.name hash key ↔
      hash = result.file.hash ∧
        (key ∈ result.found ∨ cache.Holds result.file.name result.file.hash key) := by
  induction searches generalizing cache with
  | nil => cases hResult
  | cons first searches ih =>
      rcases hNames.first_or_later hResult with ⟨rfl, hOnly⟩ | hLater
      · exact (holds_rememberAll_of_not_mem hOnly).trans MatchCache.holds_remember_self
      · refine (ih hNames.of_cons hLater).trans ?_
        by_cases hName : result.file.name = first.file.name
        · -- the same search once more, so it has been remembered already
          cases hNames first (List.mem_cons_self ..) result hResult hName
          rw [MatchCache.holds_remember_self]
          simp only [true_and, or_self_left]
        · rw [MatchCache.holds_remember_of_ne hName]

end Searches

section Pass

variable {files : List SourceFile} {candidates : KeySet} {cache after : MatchCache}
  {name hash key : String}

theorem names_searches (candidates : KeySet) (cache : Option MatchCache)
    (files : List SourceFile) :
    (files.map (searchFile candidates cache)).map (·.file.name) = files.map (·.name) := by
  rw [List.map_map]
  rfl

theorem get?_search_of_not_mem (h : name ∉ files.map (·.name))
    (hAfter : (search candidates files (some cache)).cache = some after) :
    after.get? name = cache.get? name := by
  rw [cache_search_some] at hAfter
  cases hAfter
  apply get?_rememberAll_of_not_mem
  rw [names_searches]
  exact h

theorem exists_get?_search (hNames : OneFilePerName files) {file : SourceFile}
    (hFile : file ∈ files)
    (hAfter : (search candidates files (some cache)).cache = some after) :
    ∃ keys, after.get? file.name = some ⟨file.hash, keys⟩ := by
  rw [cache_search_some] at hAfter
  cases hAfter
  exact exists_get?_rememberAll (oneSearchPerName_map hNames candidates (some cache))
    (List.mem_map_of_mem hFile)

theorem holds_search_of_mem (hNames : OneFilePerName files) {file : SourceFile}
    (hFile : file ∈ files)
    (hAfter : (search candidates files (some cache)).cache = some after) :
    after.Holds file.name hash key ↔
      hash = file.hash ∧
        (cache.Holds file.name file.hash key ∨ key ∈ candidates ∧ file.Contains key) := by
  rw [cache_search_some] at hAfter
  cases hAfter
  refine (holds_rememberAll_of_mem (oneSearchPerName_map hNames candidates (some cache))
    (List.mem_map_of_mem hFile)).trans ?_
  refine and_congr_right fun _ => ?_
  rw [mem_found_searchFile, confirms_iff_holds]
  show _ ∨ cache.Holds file.name file.hash key ↔ _
  constructor
  · intro h
    rcases h with ⟨hKey, _, hContains⟩ | hHolds
    · exact Or.inr ⟨hKey, hContains⟩
    · exact Or.inl hHolds
  · intro h
    by_cases hHolds : cache.Holds file.name file.hash key
    · exact Or.inr hHolds
    · rcases h with hOld | ⟨hKey, hContains⟩
      · exact absurd hOld hHolds
      · exact Or.inl ⟨hKey, hHolds, hContains⟩

end Pass

/-!
# All passes

What is recorded in the end is what has been recorded pass by pass: the keys that some pass has
tried and that the file contains.
-/

/-- Some pass looks for the key, given what the run starts with and what has survived. -/
def IsTried (first : KeySet) (sets : List KeySet) (key : String) : Prop :=
  ∃ place < sets.length, key ∈ candidatesAt first sets place

theorem not_isTried_nil {first : KeySet} {key : String} : ¬IsTried first [] key := by
  intro h
  rcases h with ⟨place, hPlace, _⟩
  exact absurd hPlace (Nat.not_lt_zero place)

theorem isTried_cons {first set : KeySet} {sets : List KeySet} {key : String} :
    IsTried first (set :: sets) key ↔ key ∈ first ∨ IsTried (shortened set) sets key := by
  constructor
  · intro h
    rcases h with ⟨place, hPlace, hKey⟩
    cases place with
    | zero => exact Or.inl hKey
    | succ place =>
        rw [candidatesAt_cons] at hKey
        exact Or.inr ⟨place, Nat.lt_of_succ_lt_succ hPlace, hKey⟩
  · intro h
    rcases h with hKey | ⟨place, hPlace, hKey⟩
    · exact ⟨0, Nat.zero_lt_succ _, hKey⟩
    · rw [← candidatesAt_cons first set] at hKey
      exact ⟨place + 1, Nat.succ_lt_succ hPlace, hKey⟩

section Passes

variable {maxDepth : DepthBound} {files : List SourceFile} {depth : Nat} {candidates : KeySet}
  {cache : Option MatchCache} {before after : MatchCache} {name hash key : String}

theorem cache_passes_none (h : cache = none) :
    (passes maxDepth files depth candidates cache).cache = none := by
  induction depth, candidates, cache using passes.induct maxDepth files with
  | case1 depth candidates cache hGo pass =>
      rename_i ih
      subst h
      rw [cache_passes_of_proceeds hGo]
      exact ih rfl
  | case2 depth candidates cache hStop =>
      rw [passes_of_not_proceeds hStop]
      exact h

theorem cache_run_none (maxDepth : DepthBound) (keys : KeySet) (files : List SourceFile) :
    (run maxDepth keys files none).cache = none :=
  cache_passes_none rfl

theorem get?_passes_of_not_mem (h : name ∉ files.map (·.name)) (hBefore : cache = some before)
    (hAfter : (passes maxDepth files depth candidates cache).cache = some after) :
    after.get? name = before.get? name := by
  induction depth, candidates, cache using passes.induct maxDepth files generalizing before with
  | case1 depth candidates cache hGo pass =>
      rename_i ih
      subst hBefore
      rw [cache_passes_of_proceeds hGo] at hAfter
      have hPass := cache_search_some candidates files before
      exact (ih hPass hAfter).trans (get?_search_of_not_mem h hPass)
  | case2 depth candidates cache hStop =>
      rw [passes_of_not_proceeds hStop] at hAfter
      cases hBefore.symm.trans hAfter
      rfl

theorem holds_passes_of_mem (hNames : OneFilePerName files) {file : SourceFile}
    (hFile : file ∈ files) (hBefore : cache = some before)
    (hAfter : (passes maxDepth files depth candidates cache).cache = some after) :
    after.Holds file.name file.hash key ↔
      before.Holds file.name file.hash key ∨
        IsTried candidates (passes maxDepth files depth candidates cache).survivors key ∧
          file.Contains key := by
  induction depth, candidates, cache using passes.induct maxDepth files generalizing before with
  | case1 depth candidates cache hGo pass =>
      rename_i ih
      subst hBefore
      rw [cache_passes_of_proceeds hGo] at hAfter
      have hPass := cache_search_some candidates files before
      rw [ih hPass hAfter, holds_search_of_mem hNames hFile hPass,
        survivors_passes_of_proceeds hGo, isTried_cons, or_and_right, ← or_assoc]
      simp [pass]
  | case2 depth candidates cache hStop =>
      rw [passes_of_not_proceeds hStop] at hAfter ⊢
      cases hBefore.symm.trans hAfter
      simp [not_isTried_nil]

theorem exists_get?_passes (hNames : OneFilePerName files) {file : SourceFile}
    (hFile : file ∈ files) (hBefore : cache = some before)
    (hGo : Proceeds maxDepth depth candidates)
    (hAfter : (passes maxDepth files depth candidates cache).cache = some after) :
    ∃ keys, after.get? file.name = some ⟨file.hash, keys⟩ := by
  induction depth, candidates, cache using passes.induct maxDepth files generalizing before with
  | case1 depth candidates cache hGo pass =>
      rename_i ih
      subst hBefore
      rw [cache_passes_of_proceeds hGo] at hAfter
      have hPass := cache_search_some candidates files before
      by_cases hNext : Proceeds maxDepth (depth + 1) (shortened pass.survivors)
      · exact ih hPass hNext hAfter
      · rw [passes_of_not_proceeds hNext] at hAfter
        exact exists_get?_search hNames hFile hAfter
  | case2 depth candidates cache hStop => exact absurd hGo hStop

theorem eq_hash_of_holds_passes (hNames : OneFilePerName files) {file : SourceFile}
    (hFile : file ∈ files) (hBefore : cache = some before)
    (hGo : Proceeds maxDepth depth candidates)
    (hAfter : (passes maxDepth files depth candidates cache).cache = some after)
    (h : after.Holds file.name hash key) : hash = file.hash := by
  rcases exists_get?_passes hNames hFile hBefore hGo hAfter with ⟨keys, hRecord⟩
  rcases h with ⟨record, hFound, hHash, _⟩
  cases hRecord.symm.trans hFound
  exact hHash.symm

end Passes

/-!
# The records after a run
-/

def IsTriedIn (keys : KeySet) (depths : SurvivorMap) (key : String) : Prop :=
  ∃ depth survivors, depths.get? (depth + 1) = some survivors ∧
    key ∈ candidates depth (textsAt keys depths depth)

/--
The record of each file has its trusted keys and the tried keys that the file contains. Records of
other files are as before.
-/
structure Records (before : MatchCache) (files : List SourceFile) (tried : String → Prop)
    (after : MatchCache) : Prop where
  path : after.path = before.path
  ofFile : ∀ file ∈ files, ∃ keys, after.get? file.name = some ⟨file.hash, keys⟩ ∧
    ∀ key, key ∈ keys ↔ before.Holds file.name file.hash key ∨ tried key ∧ file.Contains key
  ofOther : ∀ name, name ∉ files.map (·.name) → after.get? name = before.get? name

section Runs

variable {maxDepth : DepthBound} {keys : KeySet} {files : List SourceFile}

theorem isTriedIn_run {cache : Option MatchCache} {key : String} :
    IsTriedIn keys (run maxDepth keys files cache).findings.depths key ↔
      IsTried keys (passes maxDepth files 0 keys cache).survivors key := by
  unfold IsTriedIn IsTried
  simp only [candidates_textsAt_run, get?_depths_run]
  constructor
  · intro h
    rcases h with ⟨depth, survivors, hDepth, hKey⟩
    exact ⟨depth, (List.getElem?_eq_some_iff.mp hDepth).1, hKey⟩
  · intro h
    rcases h with ⟨depth, hDepth, hKey⟩
    exact ⟨depth, _, List.getElem?_eq_getElem hDepth, hKey⟩

theorem get?_one_run {cache : Option MatchCache} :
    (∃ survivors, (run maxDepth keys files cache).findings.depths.get? 1 = some survivors) ↔
      Proceeds maxDepth 0 keys := by
  rw [get?_depths_run maxDepth keys files cache 0]
  constructor
  · intro h
    rcases h with ⟨survivors, hFirst⟩
    exact (exists_search_of_getElem? hFirst).1
  · intro hGo
    rw [survivors_passes_of_proceeds hGo]
    exact ⟨_, rfl⟩

/--
A run with at least one pass leaves for each of its files a record of the content as it is, with
what the old record had for this content and what the passes have looked for and the file contains.
All other records stay, and without a pass the whole cache stays.
-/
theorem records_run (maxDepth : DepthBound) (keys : KeySet) (cache : MatchCache)
    (hNames : (files.map (·.name)).Nodup) :
    ∃ after, (run maxDepth keys files (some cache)).cache = some after ∧
      ((∃ survivors, (run maxDepth keys files (some cache)).findings.depths.get? 1 =
          some survivors) →
        Records cache files
          (IsTriedIn keys (run maxDepth keys files (some cache)).findings.depths) after) ∧
      ((run maxDepth keys files (some cache)).findings.depths.get? 1 = none → after = cache) := by
  rcases exists_cache_run maxDepth keys files cache with ⟨after, hAfter, hPath, _⟩
  refine ⟨after, hAfter, ?_, ?_⟩
  · intro hFirst
    have hGo := get?_one_run.mp hFirst
    constructor
    case path => exact hPath
    case ofFile =>
      intro file hFile
      have hOne := oneFilePerName_of_nodup hNames
      rcases exists_get?_passes hOne hFile rfl hGo hAfter with ⟨found, hRecord⟩
      refine ⟨found, hRecord, ?_⟩
      intro key
      have hHolds : key ∈ found ↔ after.Holds file.name file.hash key := by
        unfold MatchCache.Holds
        simp [hRecord]
      rw [hHolds, isTriedIn_run]
      exact holds_passes_of_mem hOne hFile rfl hAfter
    case ofOther => exact fun name hName => get?_passes_of_not_mem hName rfl hAfter
  · intro hNone
    -- The first depth is missing from the findings only if there has been no pass.
    have hStop : ¬Proceeds maxDepth 0 keys := by
      intro hGo
      rcases get?_one_run.mpr hGo with ⟨survivors, hFirst⟩
      cases hNone.symm.trans hFirst
    have hSame : (passes maxDepth files 0 keys (some cache)).cache = some after := hAfter
    rw [passes_of_not_proceeds hStop] at hSame
    cases hSame
    rfl

end Runs

def mixedFiles : List SourceFile :=
  [.make "a.ts" "t(menu.open)", .make "b.ts" "t(home)"]

/-- One record with a key that its file does not contain, one for other content, one for no file. -/
def mixedCache : MatchCache where
  path := bytesOf "src/.i18n-validator.json"
  records := .ofList [("a.ts", ⟨Digest.fingerprint "a.ts" "t(menu.open)", .ofList ["ghost"]⟩),
    ("b.ts", ⟨"other", .ofList ["menu"]⟩), ("c.ts", ⟨"kept", .ofList ["home"]⟩)]

theorem records_run_mixedCache :
    (mixedFiles.map (·.name)).Nodup ∧
      (∃ survivors, (run .unbounded (.ofList ["menu.open.now", "home"]) mixedFiles
        (some mixedCache)).findings.depths.get? 1 = some survivors) ∧
      ∃ after, (run .unbounded (.ofList ["menu.open.now", "home"]) mixedFiles
          (some mixedCache)).cache = some after ∧
        Records mixedCache mixedFiles
          (IsTriedIn (.ofList ["menu.open.now", "home"]) (run .unbounded
            (.ofList ["menu.open.now", "home"]) mixedFiles (some mixedCache)).findings.depths)
          after := by
  have hNames : (mixedFiles.map (·.name)).Nodup := by decide
  have hGo : Proceeds .unbounded 0 (.ofList ["menu.open.now", "home"]) := ⟨rfl, by decide⟩
  have hFirst : ∃ survivors, (run .unbounded (.ofList ["menu.open.now", "home"]) mixedFiles
      (some mixedCache)).findings.depths.get? 1 = some survivors :=
    get?_one_run.mpr hGo
  rcases records_run .unbounded (.ofList ["menu.open.now", "home"]) mixedCache hNames with
    ⟨after, hAfter, hRecords, _⟩
  exact ⟨hNames, hFirst, after, hAfter, hRecords hFirst⟩

end Usage
end CatalogAudit
