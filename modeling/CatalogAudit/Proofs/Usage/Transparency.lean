import CatalogAudit.Proofs.Usage.DepthMap
import CatalogAudit.Proofs.Usage.Records
import CatalogAudit.Proofs.Usage.SaveLoad

/-!
# The cache changes no result

Every key that the cache ever holds has been found in some content with the digest on record. As
long as no two contents of one file share a digest, a trusted key is therefore in the content as it
is, and a run with the cache reports what it reports without. Nothing else is needed of the history
of the cache: files may come and go or change, runs may differ in keys and depth, and the cache may
be cleaned, saved, and loaded in between.
-/

namespace CatalogAudit
namespace Usage

/-!
# Keys that have been found

A name, a digest, and a key are shown by a file that has the name and the digest and contains the
key. Searching adds only what is shown by the files that are searched.
-/

/-- Some of the files has this name and this digest and contains the key. -/
def Shown (files : List SourceFile) (name hash key : String) : Prop :=
  ∃ file ∈ files, file.name = name ∧ file.hash = hash ∧ file.Contains key

theorem shown_of_subset {few many : List SourceFile} (hSub : ∀ file ∈ few, file ∈ many)
    {name hash key : String} (h : Shown few name hash key) : Shown many name hash key := by
  rcases h with ⟨file, hFile, hRest⟩
  exact ⟨file, hSub file hFile, hRest⟩

theorem holds_rememberAll {cache : MatchCache} {searches : List FileSearch}
    {name hash key : String} (h : (rememberAll cache searches).Holds name hash key) :
    cache.Holds name hash key ∨
      ∃ result ∈ searches, result.file.name = name ∧ result.file.hash = hash ∧
        key ∈ result.found := by
  induction searches generalizing cache with
  | nil => exact Or.inl h
  | cons result searches ih =>
      rcases ih h with hHolds | ⟨other, hOther, hRest⟩
      · by_cases hName : name = result.file.name
        · subst hName
          rcases MatchCache.holds_remember_self.mp hHolds with ⟨rfl, hFound | hOld⟩
          · exact Or.inr ⟨result, List.mem_cons_self .., rfl, rfl, hFound⟩
          · exact Or.inl hOld
        · exact Or.inl ((MatchCache.holds_remember_of_ne hName).mp hHolds)
      · exact Or.inr ⟨other, List.mem_cons_of_mem result hOther, hRest⟩

theorem cache_search_some (candidates : KeySet) (files : List SourceFile) (cache : MatchCache) :
    (search candidates files (some cache)).cache =
      some (rememberAll cache (files.map (searchFile candidates (some cache)))) :=
  rfl

theorem path_rememberAll (cache : MatchCache) (searches : List FileSearch) :
    (rememberAll cache searches).path = cache.path := by
  induction searches generalizing cache with
  | nil => rfl
  | cons result searches ih =>
      exact ih (cache.remember result.file.name result.file.hash result.found)

theorem holds_cache_search {candidates : KeySet} {files : List SourceFile}
    {cache cache' : MatchCache}
    (hCache : (search candidates files (some cache)).cache = some cache')
    {name hash key : String} (h : cache'.Holds name hash key) :
    cache.Holds name hash key ∨ Shown files name hash key := by
  rw [cache_search_some] at hCache
  cases hCache
  rcases holds_rememberAll h with hOld | ⟨result, hResult, hName, hHash, hFound⟩
  · exact Or.inl hOld
  · rcases List.mem_map.mp hResult with ⟨file, hFile, rfl⟩
    have hContains := (mem_found_searchFile.mp hFound).2.2
    exact Or.inr ⟨file, hFile, hName, hHash, hContains⟩

section Passes

variable {maxDepth : DepthBound} {files : List SourceFile}

/-- The passes lead to a cache at the same place, and what it holds has been held or is shown. -/
theorem exists_cache_passes {depth : Nat} {candidates : KeySet} {cache : Option MatchCache}
    {before : MatchCache} (hBefore : cache = some before) :
    ∃ after, (passes maxDepth files depth candidates cache).cache = some after ∧
      after.path = before.path ∧
      ∀ name hash key, after.Holds name hash key →
        before.Holds name hash key ∨ Shown files name hash key := by
  induction depth, candidates, cache using passes.induct maxDepth files generalizing before with
  | case1 depth candidates cache hGo pass =>
      rename_i ih
      subst hBefore
      have hPass := cache_search_some candidates files before
      rcases ih hPass with ⟨after, hAfter, hPath, hOrigin⟩
      rw [cache_passes_of_proceeds hGo]
      refine ⟨after, hAfter, hPath.trans (path_rememberAll before _), ?_⟩
      intro name hash key hHolds
      rcases hOrigin name hash key hHolds with hMid | hShown
      · exact holds_cache_search hPass hMid
      · exact Or.inr hShown
  | case2 depth candidates cache hStop =>
      subst hBefore
      rw [passes_of_not_proceeds hStop]
      exact ⟨before, rfl, rfl, fun _ _ _ hHolds => Or.inl hHolds⟩

theorem exists_cache_run (maxDepth : DepthBound) (keys : KeySet) (files : List SourceFile)
    (cache : MatchCache) :
    ∃ after, (run maxDepth keys files (some cache)).cache = some after ∧
      after.path = cache.path ∧
      ∀ name hash key, after.Holds name hash key →
        cache.Holds name hash key ∨ Shown files name hash key :=
  exists_cache_passes rfl

end Passes

/-!
# Truthful caches

A cache is truthful about some files if it holds for none of them a key that the file does not
contain. Two contents of one file that share a digest are the one thing that could make it lie.
-/

/-- Files that share name and digest have the same content. -/
def NoCollision (files : List SourceFile) : Prop :=
  ∀ file ∈ files, ∀ other ∈ files, file.name = other.name → file.hash = other.hash →
    file.content = other.content

theorem noCollision_of_subset {few many : List SourceFile} (hSub : ∀ file ∈ few, file ∈ many)
    (h : NoCollision many) : NoCollision few := by
  intro file hFile other hOther
  exact h file (hSub file hFile) other (hSub other hOther)

/-- What the cache holds for the files as they are is in them. -/
def Truthful (cache : MatchCache) (files : List SourceFile) : Prop :=
  ∀ file ∈ files, ∀ key, cache.Holds file.name file.hash key → file.Contains key

theorem contains_of_shown {files : List SourceFile} (hDigest : NoCollision files)
    {file : SourceFile} (hFile : file ∈ files) {key : String}
    (h : Shown files file.name file.hash key) : file.Contains key := by
  rcases h with ⟨other, hOther, hName, hHash, hContains⟩
  have hContent := hDigest other hOther file hFile hName hHash
  unfold SourceFile.Contains at hContains ⊢
  rw [← hContent]
  exact hContains

section Passes

variable {maxDepth : DepthBound} {files : List SourceFile}

theorem truthful_cache_search (hDigest : NoCollision files) {cache : MatchCache}
    (hTruthful : Truthful cache files) {candidates : KeySet} {after : MatchCache}
    (hAfter : (search candidates files (some cache)).cache = some after) :
    Truthful after files := by
  intro file hFile key hHolds
  rcases holds_cache_search hAfter hHolds with hOld | hShown
  · exact hTruthful file hFile key hOld
  · exact contains_of_shown hDigest hFile hShown

theorem survivors_search_of_truthful {cache : MatchCache} (hTruthful : Truthful cache files)
    (candidates : KeySet) :
    (search candidates files (some cache)).survivors =
      (search candidates files none).survivors := by
  apply SortedSet.ext_mem
  intro key
  rw [mem_survivors_search, mem_survivors_search_none]
  constructor
  · intro h
    exact ⟨h.1, h.2.1⟩
  · intro h
    refine ⟨h.1, h.2, ?_⟩
    intro file hFile hConfirms
    exact h.2 file hFile (hTruthful file hFile key (confirms_iff_holds.mp hConfirms))

theorem findings_run_of_truthful (maxDepth : DepthBound) (keys : KeySet)
    (hDigest : NoCollision files) {cache : MatchCache} (hTruthful : Truthful cache files) :
    (run maxDepth keys files (some cache)).findings = (run maxDepth keys files none).findings := by
  apply findings_run_congr
  -- Without a cache there is none in any pass, and with one it stays truthful.
  refine (passes_of_related (fun cached plain => plain = none ∧
    ∃ before, cached = some before ∧ Truthful before files) ?_ ⟨rfl, cache, rfl, hTruthful⟩).1
  intro candidates cached plain h
  rcases h with ⟨rfl, before, rfl, hBefore⟩
  have hPass := cache_search_some candidates files before
  exact ⟨survivors_search_of_truthful hBefore candidates, rfl, _, hPass,
    truthful_cache_search hDigest hBefore hPass⟩

end Passes

/-!
# Histories

A history starts with an empty cache. Each step runs with the cache, cleans it, or saves it and
loads it again from the file that has been written.
-/

structure CachedRun where
  maxDepth : DepthBound
  keys : KeySet
  files : List SourceFile
  findings : UnusedFindings

/-- The runs so far, the latest first, and the cache that they have led to. -/
inductive History (path : Path) : List CachedRun → MatchCache → Prop where
  | start : History path [] (.new path)
  | run {runs : List CachedRun} {cache after : MatchCache} (maxDepth : DepthBound)
      (keys : KeySet) (files : List SourceFile) (before : History path runs cache)
      (hAfter : (run maxDepth keys files (some cache)).cache = some after) :
      History path
        (⟨maxDepth, keys, files, (run maxDepth keys files (some cache)).findings⟩ :: runs) after
  | keepOnly {runs : List CachedRun} {cache : MatchCache} (files : List SourceFile)
      (before : History path runs cache) : History path runs (cache.keepOnly files)
  | reload {runs : List CachedRun} {cache : MatchCache} {disk written : FileTree.Disk}
      {root : Path} (before : History path runs cache) (hSave : cache.save disk = .ok written)
      (hPath : written.resolve (Path.join root MatchCache.fileName) = written.resolve cache.path) :
      History path runs (MatchCache.load written root)

/-- All contents that the runs of a history have seen. -/
def filesOf (runs : List CachedRun) : List SourceFile :=
  runs.flatMap (·.files)

theorem shown_of_history {path : Path} {runs : List CachedRun} {cache : MatchCache}
    (h : History path runs cache) {name hash key : String} (hHolds : cache.Holds name hash key) :
    Shown (filesOf runs) name hash key := by
  induction h generalizing name hash key with
  | start => exact absurd hHolds MatchCache.not_holds_new
  | run maxDepth keys files before hAfter ih =>
      rename_i runs cache after
      rcases exists_cache_run maxDepth keys files cache with ⟨found, hFound, _, hOrigin⟩
      rw [hAfter] at hFound
      cases hFound
      rcases hOrigin name hash key hHolds with hOld | hShown
      · exact shown_of_subset (fun file hFile => List.mem_append_right files hFile) (ih hOld)
      · exact shown_of_subset (fun file hFile => List.mem_append_left _ hFile) hShown
  | keepOnly files before ih => exact ih (MatchCache.holds_of_holds_keepOnly hHolds)
  | reload before hSave hPath ih =>
      exact ih (MatchCache.holds_of_holds_load_save hSave hPath hHolds)

/--
Every run of a history reports what it would report without a cache, as long as no two contents of
one file that the history has seen share a digest.
-/
theorem findings_of_history {path : Path} {runs : List CachedRun} {cache : MatchCache}
    (h : History path runs cache) (hDigest : NoCollision (filesOf runs)) :
    ∀ past ∈ runs, past.findings = (run past.maxDepth past.keys past.files none).findings := by
  induction h with
  | start =>
      intro past hPast
      cases hPast
  | run maxDepth keys files before hAfter ih =>
      rename_i runs cache after
      intro past hPast
      rcases List.mem_cons.mp hPast with rfl | hPast
      · have hOwn : NoCollision files := noCollision_of_subset
          (fun file hFile => List.mem_append_left _ hFile) hDigest
        apply findings_run_of_truthful maxDepth keys hOwn
        intro file hFile key hHolds
        have hShown := shown_of_subset (fun other hOther => List.mem_append_right files hOther)
          (shown_of_history before hHolds)
        exact contains_of_shown hDigest (List.mem_append_left _ hFile) hShown
      · have hEarlier : NoCollision (filesOf runs) := noCollision_of_subset
          (fun file hFile => List.mem_append_right files hFile) hDigest
        exact ih hEarlier past hPast
  | keepOnly files before ih => exact ih hDigest
  | reload before hSave hPath ih => exact ih hDigest

theorem noCollision_edited :
    NoCollision [.make "a.ts" "t(menu)", .make "a.ts" "t(menu.open)"] := by
  have hDigests : (SourceFile.make "a.ts" "t(menu)").hash ≠
      (SourceFile.make "a.ts" "t(menu.open)").hash := by decide +kernel
  intro file hFile other hOther _ hHash
  simp only [List.mem_cons, List.not_mem_nil, or_false] at hFile hOther
  rcases hFile with rfl | rfl <;> rcases hOther with rfl | rfl
  · rfl
  · exact absurd hHash hDigests
  · exact absurd hHash.symm hDigests
  · rfl

theorem findings_of_history_edited :
    ∃ runs cache, History (bytesOf "src/.i18n-validator.json") runs cache ∧
      runs.map (·.files) =
        [[.make "a.ts" "t(menu)"], [.make "a.ts" "t(menu.open)"]] ∧
      NoCollision (filesOf runs) ∧
      ∀ past ∈ runs,
        past.findings = (run past.maxDepth past.keys past.files none).findings := by
  rcases exists_cache_run .unbounded (.ofList ["menu.open"]) [.make "a.ts" "t(menu.open)"]
    (.new (bytesOf "src/.i18n-validator.json")) with ⟨first, hFirst, hPlace, _⟩
  have hSearched := History.run .unbounded _ _ History.start hFirst
  have hCleaned := History.keepOnly [.make "a.ts" ""] hSearched
  have hSlash : FileTree.Disk.endsInSlash first.path = false := by
    rw [hPlace]
    decide +kernel
  have hLocate : (⟨.directory [(bytesOf "src", .directory [])], []⟩ : FileTree.Disk).locate true
      first.path = .ok (.absent [bytesOf "src"] MatchCache.fileName) := by
    rw [hPlace]
    rfl
  have hSaved : ∃ written, (first.keepOnly [.make "a.ts" ""]).save _ = .ok written :=
    MatchCache.exists_save_of_absent hSlash ⟨_, rfl⟩ hLocate
  rcases hSaved with ⟨written, hSave⟩
  have hRoot : Path.join (bytesOf "src") MatchCache.fileName =
      (first.keepOnly [.make "a.ts" ""]).path := by
    show _ = first.path
    rw [hPlace]
    decide +kernel
  have hLoaded := History.reload hCleaned hSave (congrArg written.resolve hRoot)
  rcases exists_cache_run (.bounded 1) (.ofList ["menu.open", "menu"]) [.make "a.ts" "t(menu)"]
    (MatchCache.load written (bytesOf "src")) with ⟨last, hLast, _, _⟩
  have hEdited := History.run (.bounded 1) _ _ hLoaded hLast
  refine ⟨_, last, hEdited, rfl, noCollision_edited, ?_⟩
  exact findings_of_history hEdited noCollision_edited

end Usage
end CatalogAudit
