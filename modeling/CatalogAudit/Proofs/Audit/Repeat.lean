import CatalogAudit.Console.Lines
import CatalogAudit.Proofs.Audit.Unread
import CatalogAudit.Proofs.Source.Coverage
import CatalogAudit.Proofs.Usage.SecondRun

/-!
# Running the same audit again

An audit of unused keys changes the disk that the next one starts with: the report and the cache
are there now, possibly where a pattern matches them, and the cache is used. Still the next audit
tells the same as the one before. For that the scan has to see that its own files are excluded, and
files that share a name, as those whose names are no texts can, have to share their content.
-/

namespace CatalogAudit

theorem Report.write_eq_ok {disk disk' : FileTree.Disk} {path : Path} {text : String} :
    write disk path text = .ok disk' ↔ disk.write path (bytesOf text) = .ok disk' :=
  withContext_eq_ok

namespace Audit
namespace UnusedKeys

open Catalog (FlatCatalog)
open CommandLine (UnusedArguments)
open FileTree (Disk Location)
open SourceScan (Misses)

/-!
# What is saved
-/

def savedText? (disk : Disk) (arguments : UnusedArguments) (project : Project)
    (flat : FlatCatalog) (files : List SourceFile) : Option String :=
  (searched disk arguments project flat files).cache.map fun cache =>
    (cache.keepOnly files).fileText

/-- The second disk has the text in this file. Without a text it is the first disk. -/
def Puts (text? : Option String) (path : Path) (disk disk' : Disk) : Prop :=
  match text? with
  | none => disk' = disk
  | some text => disk.write path (bytesOf text) = .ok disk'

section Saved

variable {disk saved : Disk} {arguments : UnusedArguments} {project : Project} {flat : FlatCatalog}
  {files : List SourceFile}

theorem searched_of_cached (h : isCached project arguments = true) :
    searched disk arguments project flat files =
      Usage.run (depthOf project arguments)
        (keysLeft disk (ignoreListPath? project arguments) flat.keys) files
        (some (MatchCache.load disk (rootOf project arguments))) := by
  unfold searched cacheAt
  rw [h]
  rfl

theorem searched_of_not_cached (h : isCached project arguments = false) :
    searched disk arguments project flat files =
      Usage.run (depthOf project arguments)
        (keysLeft disk (ignoreListPath? project arguments) flat.keys) files none := by
  unfold searched cacheAt
  rw [h]
  rfl

theorem exists_cache_searched (disk : Disk) (flat : FlatCatalog) (files : List SourceFile)
    (h : isCached project arguments = true) :
    ∃ after, (searched disk arguments project flat files).cache = some after ∧
      after.path = cachePathOf project arguments := by
  rw [searched_of_cached h]
  rcases Usage.exists_cache_run (depthOf project arguments)
    (keysLeft disk (ignoreListPath? project arguments) flat.keys) files
    (MatchCache.load disk (rootOf project arguments)) with ⟨after, hAfter, hPath, _⟩
  exact ⟨after, hAfter, hPath.trans (MatchCache.path_load disk _)⟩

theorem saves_iff_puts :
    Saves files (searched disk arguments project flat files).cache disk saved ↔
      Puts (savedText? disk arguments project flat files) (cachePathOf project arguments) disk
        saved := by
  unfold savedText?
  cases hCached : isCached project arguments with
  | false =>
      rw [searched_of_not_cached hCached, Usage.cache_run_none]
      exact Iff.rfl
  | true =>
      rcases exists_cache_searched disk flat files hCached with ⟨after, hAfter, hPath⟩
      rw [hAfter, ← hPath]
      exact withContext_eq_ok

theorem isSome_savedText? (disk : Disk) (arguments : UnusedArguments) (project : Project)
    (flat : FlatCatalog) (files : List SourceFile) :
    (savedText? disk arguments project flat files).isSome = isCached project arguments := by
  unfold savedText?
  cases hCached : isCached project arguments with
  | false =>
      rw [searched_of_not_cached hCached, Usage.cache_run_none]
      rfl
  | true =>
      rcases exists_cache_searched disk flat files hCached with ⟨after, hAfter, _⟩
      rw [hAfter]
      rfl

theorem searched_again {disk' : Disk}
    (hNames : isCached project arguments = true → Usage.OneFilePerName files)
    (hKeys : keysLeft disk' (ignoreListPath? project arguments) flat.keys =
      keysLeft disk (ignoreListPath? project arguments) flat.keys)
    (hText : ∀ text, savedText? disk arguments project flat files = some text →
      disk'.readBytes (cachePathOf project arguments) = .ok (bytesOf text)) :
    (searched disk' arguments project flat files).findings =
        (searched disk arguments project flat files).findings ∧
      savedText? disk' arguments project flat files =
        savedText? disk arguments project flat files := by
  unfold savedText? at hText ⊢
  cases hCached : isCached project arguments with
  | false =>
      rw [searched_of_not_cached hCached, searched_of_not_cached hCached, hKeys]
      exact ⟨rfl, rfl⟩
  | true =>
      rcases exists_cache_searched disk flat files hCached with ⟨after, hAfter, _⟩
      rcases exists_cache_searched disk' flat files hCached with ⟨last, hLast, _⟩
      have hBytes := hText (after.keepOnly files).fileText (by rw [hAfter]; rfl)
      have hLoad : MatchCache.load disk' (rootOf project arguments) =
          ⟨cachePathOf project arguments, (after.keepOnly files).written⟩ :=
        MatchCache.load_of_readRecords (MatchCache.readRecords_of_readBytes hBytes)
      rw [searched_of_cached hCached] at hAfter hLast ⊢
      rw [searched_of_cached hCached, hAfter]
      rw [hKeys, hLoad] at hLast ⊢
      constructor
      · exact Usage.findings_run_again (hNames hCached) hAfter fun _ _ _ =>
          MatchCache.holds_mk_written
      · rw [hLast]
        exact congrArg some (Usage.fileText_run_written (hNames hCached) hAfter hLast)

end Saved

/-!
# What is written
-/

def IsWritten (disk : Disk) (project : Project) (arguments : UnusedArguments)
    (place : Location) : Prop :=
  ∃ path ∈ writtenPaths project (.unused arguments), disk.place? path = some place

structure Leaves (disk : Disk) (project : Project) (arguments : UnusedArguments) (report : String)
    (text? : Option String) : Prop where
  report : disk.readBytes (outputOf project arguments) = .ok (bytesOf report)
  cache : ∀ text, text? = some text →
    disk.readBytes (cachePathOf project arguments) = .ok (bytesOf text)

section Written

variable {disk saved disk' : Disk} {arguments : UnusedArguments} {project : Project}
  {text? : Option String}

theorem changedIn_of_puts (hSound : disk.IsSound) {path : Path}
    (h : Puts text? path disk saved) :
    disk.ChangedIn (fun place => disk.place? path = some place) saved ∧
      ∀ text, text? = some text → saved.readBytes path = .ok (bytesOf text) := by
  cases text? with
  | none =>
      cases h
      exact ⟨.refl disk _, fun _ hNone => by cases hNone⟩
  | some text =>
      rcases Disk.changedAt_of_write hSound h with ⟨place, hPlace, hChanged, hRead⟩
      refine ⟨.of_changedAt hChanged hPlace, ?_⟩
      intro _ hText
      cases hText
      exact hRead

theorem leaves_of_writes (hSound : disk.IsSound)
    (hDifferent : disk.place? (outputOf project arguments) ≠
      disk.place? (cachePathOf project arguments))
    (hPuts : Puts text? (cachePathOf project arguments) disk saved) {report : String}
    (hWrite : Report.write saved (outputOf project arguments) report = .ok disk') :
    disk.ChangedIn (IsWritten disk project arguments) disk' ∧
      Leaves disk' project arguments report text? := by
  rcases changedIn_of_puts hSound hPuts with ⟨hSaved, hText⟩
  rcases Disk.changedAt_of_write (hSaved.isSound hSound) (Report.write_eq_ok.mp hWrite) with
    ⟨place, hPlace, hChanged, hReport⟩
  have hOutput := (hSaved.place?_eq (outputOf project arguments)).symm.trans hPlace
  constructor
  · apply Disk.ChangedIn.trans (hSaved.mono _) (.of_changedAt hChanged _)
    · intro other hOther
      exact ⟨cachePathOf project arguments, List.mem_pair.mpr (Or.inr rfl), hOther⟩
    · exact ⟨outputOf project arguments, List.mem_pair.mpr (Or.inl rfl), hOutput⟩
  · constructor
    · exact hReport
    · intro text hSome
      have hOther : saved.place? (cachePathOf project arguments) ≠ some place := by
        rw [hSaved.place?_eq, ← hOutput]
        exact hDifferent.symm
      rw [← toOption_eq_some, hChanged.readBytes_eq hOther, toOption_eq_some]
      exact hText text hSome

theorem exists_leaves (hSound : disk.IsSound)
    (hDifferent : disk.place? (outputOf project arguments) ≠
      disk.place? (cachePathOf project arguments))
    {old old' last : Disk} (hOld : Puts text? (cachePathOf project arguments) old old')
    (hText : ∀ text, text? = some text →
      disk.readBytes (cachePathOf project arguments) = .ok (bytesOf text))
    {report : String} (hLast : Report.write old' (outputOf project arguments) report = .ok last)
    (hFile : disk.isFile (outputOf project arguments) = true) (report' : String) :
    ∃ saved disk', Puts text? (cachePathOf project arguments) disk saved ∧
      Report.write saved (outputOf project arguments) report' = .ok disk' ∧
      Leaves disk' project arguments report' text? := by
  have hPuts : ∃ saved, Puts text? (cachePathOf project arguments) disk saved := by
    cases text? with
    | none => exact ⟨disk, rfl⟩
    | some text =>
        have hSlash := Disk.endsInSlash_of_write hOld
        have hCacheFile := Disk.isFile_of_readBytes (hText text rfl)
        exact Disk.exists_write_of_isFile hSound hSlash hCacheFile (bytesOf text)
  rcases hPuts with ⟨saved, hSaved⟩
  have hChanged := (changedIn_of_puts hSound hSaved).1
  have hSlash := Disk.endsInSlash_of_write (Report.write_eq_ok.mp hLast)
  rcases Disk.exists_write_of_isFile (hChanged.isSound hSound) hSlash (hChanged.isFile hFile)
    (bytesOf report') with ⟨disk', hWrite⟩
  have hReport := Report.write_eq_ok.mpr hWrite
  exact ⟨saved, disk', hSaved, hReport, (leaves_of_writes hSound hDifferent hSaved hReport).2⟩

end Written

/-!
# The second audit
-/

/--
The files that an audit writes are apart from each other and from what it reads. All of them are
taken as the places that their paths lead to.
-/
structure IsApart (disk : Disk) (project : Project) (arguments : UnusedArguments) : Prop where
  different : disk.place? (outputOf project arguments) ≠
    disk.place? (cachePathOf project arguments)
  unread : ∀ place, IsWritten disk project arguments place →
    IsUnread disk project arguments place

instance (disk : Disk) (project : Project) (arguments : UnusedArguments) :
    Decidable (IsApart disk project arguments) :=
  decidable_of_iff
    (disk.place? (outputOf project arguments) ≠ disk.place? (cachePathOf project arguments) ∧
      ∀ path ∈ writtenPaths project (.unused arguments), ∀ place ∈ disk.place? path,
        IsUnread disk project arguments place)
    ⟨fun h => ⟨h.1, fun place hWritten => by
        rcases hWritten with ⟨path, hPath, hPlace⟩
        exact h.2 path hPath place hPlace⟩,
      fun h => ⟨h.different, fun path hPath place hPlace => h.unread place ⟨path, hPath, hPlace⟩⟩⟩

/-- The scan can see of the files that the audit writes that they are excluded. -/
def MissesOwnFiles (disk : Disk) (project : Project) (arguments : UnusedArguments) : Prop :=
  ∀ place, IsWritten disk project arguments place →
    Misses disk (scanRequest project arguments) place

instance (disk : Disk) (project : Project) (arguments : UnusedArguments) :
    Decidable (MissesOwnFiles disk project arguments) :=
  decidable_of_iff
    (∀ path ∈ writtenPaths project (.unused arguments), ∀ place ∈ disk.place? path,
      Misses disk (scanRequest project arguments) place)
    ⟨fun h place hWritten => by
        rcases hWritten with ⟨path, hPath, hPlace⟩
        exact h path hPath place hPlace,
      fun h path hPath place hPlace => h place ⟨path, hPath, hPlace⟩⟩

def sourcesOf (disk : Disk) (project : Project) (arguments : UnusedArguments) :
    Except Fault (List SourceFile) := do
  let paths ← SourceScan.find disk (scanRequest project arguments)
  SourceFile.loadAll disk (rootOf project arguments) paths

/-- Source files with the same normalized name have the same content. -/
def NamesTellFiles (disk : Disk) (project : Project) (arguments : UnusedArguments) : Prop :=
  ∀ files ∈ (sourcesOf disk project arguments).toOption, Usage.OneFilePerName files

instance (disk : Disk) (project : Project) (arguments : UnusedArguments) :
    Decidable (NamesTellFiles disk project arguments) :=
  inferInstanceAs (Decidable (∀ files ∈ (sourcesOf disk project arguments).toOption, _))

theorem NamesTellFiles.oneFilePerName {disk : Disk} {project : Project}
    {arguments : UnusedArguments} {flat : FlatCatalog} {files : List SourceFile}
    (h : NamesTellFiles disk project arguments) (hSees : Sees disk arguments project flat files) :
    Usage.OneFilePerName files :=
  h files (toOption_eq_some.mpr (bind_eq_ok.mpr hSees.sources))

/-- Nothing that the next audit reads changes when a file at this place does. -/
structure IsIdle (disk : Disk) (project : Project) (arguments : UnusedArguments)
    (place : Location) : Prop where
  unread : IsUnread disk project arguments place
  misses : Misses disk (scanRequest project arguments) place
  notCache : isCached project arguments = true →
    disk.place? (cachePathOf project arguments) ≠ some place

section Again

variable {time time' : String} {disk disk' : Disk} {arguments : UnusedArguments} {project : Project}
  {result : UnusedResult}

theorem exists_sees_of_audited (hSound : disk.IsSound)
    (hProject : Project.load disk = .ok project)
    (hApart : IsApart disk project arguments)
    (hMissed : MissesOwnFiles disk project arguments)
    (h : Audited time arguments disk result disk') :
    ∃ flat files text?, text?.isSome = isCached project arguments ∧
      disk.ChangedIn (IsWritten disk project arguments) disk' ∧
      Sees disk' arguments project flat files ∧
      Leaves disk' project arguments
        (Report.unusedText (.at time) result.findings result.warnings) text? := by
  rcases h with ⟨project', flat, files, saved, hSees, hSaves, hWrite, rfl⟩
  cases hProject.symm.trans hSees.project_eq
  rcases leaves_of_writes hSound hApart.different (saves_iff_puts.mp hSaves) hWrite with
    ⟨hChanged, hLeft⟩
  exact ⟨flat, files, savedText? disk arguments project flat files,
    isSome_savedText? disk arguments project flat files, hChanged,
    hSees.of_changedIn hChanged hApart.unread hMissed, hLeft⟩

theorem exists_audited_again (hSound : disk.IsSound)
    (hProject : Project.load disk = .ok project)
    (hApart : IsApart disk project arguments)
    (hMissed : MissesOwnFiles disk project arguments)
    (hNames : isCached project arguments = true → NamesTellFiles disk project arguments)
    (h : Audited time arguments disk result disk')
    {between : Disk} (hBetween : disk'.ChangedIn (IsIdle disk project arguments) between)
    (time' : String) :
    ∃ text? last, text?.isSome = isCached project arguments ∧
      Leaves disk' project arguments
        (Report.unusedText (.at time) result.findings result.warnings) text? ∧
      Audited time' arguments between result last ∧
      Leaves last project arguments
        (Report.unusedText (.at time') result.findings result.warnings) text? := by
  rcases h with ⟨project', flat, files, saved, hSees, hSaves, hWrite, rfl⟩
  cases hProject.symm.trans hSees.project_eq
  have hPuts := saves_iff_puts.mp hSaves
  rcases leaves_of_writes hSound hApart.different hPuts hWrite with ⟨hFirst, hLeft⟩
  have hChanged : disk.ChangedIn (fun place => IsUnread disk project arguments place ∧
      Misses disk (scanRequest project arguments) place) between := by
    apply Disk.ChangedIn.trans (hFirst.mono _) (hBetween.mono _)
    · exact fun place hWritten => ⟨hApart.unread place hWritten, hMissed place hWritten⟩
    · exact fun _ hIdle => ⟨hIdle.unread, hIdle.misses⟩
  have hSees' := hSees.of_changedIn hChanged (fun _ hPlace => hPlace.1) fun _ hPlace => hPlace.2
  have hKeys := keysLeft_of_changedIn hChanged (fun _ hPlace => hPlace.1) flat.keys
  -- The cache file is as the first audit has left it.
  have hText : ∀ text, savedText? disk arguments project flat files = some text →
      between.readBytes (cachePathOf project arguments) = .ok (bytesOf text) := by
    intro text hSome
    have hCached : isCached project arguments = true := by
      rw [← isSome_savedText? disk arguments project flat files, hSome]
      rfl
    have hOther : ∀ place, disk'.place? (cachePathOf project arguments) = some place →
        ¬IsIdle disk project arguments place := by
      intro place hPlace hIdle
      rw [hFirst.place?_eq] at hPlace
      exact hIdle.notCache hCached hPlace
    rw [← toOption_eq_some, hBetween.readBytes_eq hOther, toOption_eq_some]
    exact hLeft.cache text hSome
  have hOne : isCached project arguments = true → Usage.OneFilePerName files := fun hCached =>
    (hNames hCached).oneFilePerName hSees
  -- So the second search takes its matches from the records of the first, and saves them again.
  rcases searched_again hOne hKeys hText with ⟨hFindings, hSame⟩
  have hDifferent : between.place? (outputOf project arguments) ≠
      between.place? (cachePathOf project arguments) := by
    rw [hChanged.place?_eq, hChanged.place?_eq]
    exact hApart.different
  rcases exists_leaves (hChanged.isSound hSound) hDifferent hPuts hText hWrite
    (hBetween.isFile (Disk.isFile_of_readBytes hLeft.report))
    (Report.unusedText (.at time') (searched disk arguments project flat files).findings
      flat.warnings) with ⟨saved', last, hPuts', hWrite', hLeft'⟩
  refine ⟨savedText? disk arguments project flat files, last,
    isSome_savedText? disk arguments project flat files, hLeft,
    ⟨project, flat, files, saved', hSees', ?_, ?_, ?_⟩, hLeft'⟩
  · rw [saves_iff_puts, hSame]
    exact hPuts'
  · rw [hFindings]
    exact hWrite'
  · rw [hFindings]

/-- Both outcomes tell the same. The times are those that the reports show. -/
structure Repeats (project : Project) (arguments : UnusedArguments) (time time' : String)
    (first second : Outcome) : Prop where
  status : second.status = first.status
  result : second.result = first.result
  output : Console.outputLines second.result = Console.outputLines first.result
  report : ∃ findings warnings,
    first.disk.readBytes (outputOf project arguments) =
        .ok (bytesOf (Report.unusedText (.at time) findings warnings)) ∧
      second.disk.readBytes (outputOf project arguments) =
        .ok (bytesOf (Report.unusedText (.at time') findings warnings))

theorem repeats_of_changedIn (hSound : disk.IsSound)
    (hProject : Project.load disk = .ok project)
    (hApart : IsApart disk project arguments)
    (hMissed : MissesOwnFiles disk project arguments)
    (hNames : isCached project arguments = true → NamesTellFiles disk project arguments)
    (hRun : (run time disk (.unused arguments)).status ≠ .failure)
    {between : Disk}
    (hBetween : (run time disk (.unused arguments)).disk.ChangedIn
      (IsIdle disk project arguments) between) (time' : String) :
    Repeats project arguments time time' (run time disk (.unused arguments))
        (run time' between (.unused arguments)) ∧
      (isCached project arguments = true → ∃ content,
        (run time disk (.unused arguments)).disk.readBytes (cachePathOf project arguments) =
            .ok content ∧
          (run time' between (.unused arguments)).disk.readBytes
              (cachePathOf project arguments) = .ok content) := by
  rcases exists_audited_of_status hRun with ⟨result, hAudited⟩
  rcases exists_audited_again hSound hProject hApart hMissed hNames hAudited hBetween time' with
    ⟨text?, last, hText, hLeft, hAgain, hLeft'⟩
  have hResult := (audited_iff.mp hAudited).1
  rcases audited_iff.mp hAgain with ⟨hResult', rfl⟩
  have hSame := hResult'.trans hResult.symm
  constructor
  · constructor
    case status => rw [status_run, status_run, hSame]
    case result => exact hSame
    case output => rw [hSame]
    case report => exact ⟨result.findings, result.warnings, hLeft.report, hLeft'.report⟩
  · intro hCached
    rw [hCached] at hText
    rcases Option.isSome_iff_exists.mp hText with ⟨text, hSome⟩
    exact ⟨bytesOf text, hLeft.cache text hSome, hLeft'.cache text hSome⟩

/--
An audit with the cache that is run twice at once tells the same both times, and the second run
leaves the cache file as it is. What has been in the cache file before does not matter, and both
files may be where the patterns match them, as long as their canonical paths can be found.
-/
theorem repeats_run_run (hSound : disk.IsSound)
    (hProject : Project.load disk = .ok project)
    (hCached : isCached project arguments = true) (hApart : IsApart disk project arguments)
    (hMissed : MissesOwnFiles disk project arguments)
    (hNames : NamesTellFiles disk project arguments)
    (hRun : (run time disk (.unused arguments)).status ≠ .failure) (time' : String) :
    Repeats project arguments time time' (run time disk (.unused arguments))
        (run time' (run time disk (.unused arguments)).disk (.unused arguments)) ∧
      ∃ content,
        (run time disk (.unused arguments)).disk.readBytes (cachePathOf project arguments) =
            .ok content ∧
          (run time' (run time disk (.unused arguments)).disk (.unused arguments)).disk.readBytes
              (cachePathOf project arguments) = .ok content := by
  rcases repeats_of_changedIn hSound hProject hApart hMissed (fun _ => hNames) hRun (.refl _ _)
    time' with ⟨hRepeats, hContent⟩
  exact ⟨hRepeats, hContent hCached⟩

end Again

def crowdedDisk : Disk where
  top := .directory [
    (MatchCache.fileName, .file (bytesOf "[")),
    (Settings.fileName, .file (bytesOf "\x7b\"sourcePatterns\":[\"*\"]\x7d")),
    (bytesOf "a.ts", .file (bytesOf "t('menu.open')")),
    (bytesOf "en.json",
      .file (bytesOf "\x7b\"menu\":\x7b\"open\":\"Open\",\"close\":\"Close\"\x7d\x7d"))]
  cwd := []

def crowdedProject : Project where
  settings := { Settings.default with sourcePatterns := ["*"] }
  file := some (bytesOf "/.i18nrc.json")
  directory := bytesOf "/"

def crowdedArguments : UnusedArguments :=
  { UnusedArguments.blank with
    localePath := some (bytesOf "en.json"), depth := some "1", strict := true }

theorem isSound_crowdedDisk : crowdedDisk.IsSound := by
  decide +kernel

theorem repeats_run_run_crowdedDisk :
    (run "first" crowdedDisk (.unused crowdedArguments)).status = .findings ∧
      Repeats crowdedProject crowdedArguments "first" "second"
        (run "first" crowdedDisk (.unused crowdedArguments))
        (run "second" (run "first" crowdedDisk (.unused crowdedArguments)).disk
          (.unused crowdedArguments)) ∧
      ∃ content,
        (run "first" crowdedDisk (.unused crowdedArguments)).disk.readBytes
            (cachePathOf crowdedProject crowdedArguments) = .ok content ∧
          (run "second" (run "first" crowdedDisk (.unused crowdedArguments)).disk
            (.unused crowdedArguments)).disk.readBytes
              (cachePathOf crowdedProject crowdedArguments) = .ok content := by
  have hStatus : (run "first" crowdedDisk (.unused crowdedArguments)).status = .findings := by
    decide +kernel
  have hRun : (run "first" crowdedDisk (.unused crowdedArguments)).status ≠ .failure := by
    rw [hStatus]
    decide
  exact ⟨hStatus, repeats_run_run isSound_crowdedDisk (by decide +kernel) (by decide)
    (by decide +kernel) (by decide +kernel) (by decide +kernel) hRun "second"⟩

/-!
# Files that are taken for each other

Names that are no texts are shown with the same replacement character, and the report of a deep
directory is not known again by a path that takes a detour.
-/

def collidingDisk : Disk where
  top := .directory [
    (bytesOf "en.json", .file (bytesOf "\x7b\"home\":\"Home\",\"menu\":\"Menu\"\x7d")),
    ([0xFE], .directory [(bytesOf "a.ts", .file (bytesOf "t('menu')"))]),
    ([0xFF], .directory [(bytesOf "a.ts", .file (bytesOf "t('home')"))])]
  cwd := []

def plainProject (directory : Path) : Project :=
  ⟨.default, none, directory⟩

def plainArguments : UnusedArguments :=
  { UnusedArguments.blank with localePath := some (bytesOf "en.json") }

def deepCatalogDisk : Disk :=
  SourceScan.deepDisk [
    (Settings.repositoryMark, .directory []),
    (SourceScan.longName, .link (bytesOf "sub")),
    (bytesOf "en.json", .file (bytesOf "\x7b\"menu\":\"Menu\"\x7d")),
    (bytesOf "sub", .directory [])]

def detourArguments : UnusedArguments :=
  { plainArguments with
    path := some SourceScan.wayAround, output := some (bytesOf "out.ts"), strict := true }

/-- Each file takes the record of the other, and a report is scanned as a source. -/
theorem differs_run_run :
    (let project := plainProject (bytesOf "/")
      let first := run "first" collidingDisk (.unused plainArguments)
      let second := run "second" first.disk (.unused plainArguments)
      collidingDisk.IsSound ∧ Project.load collidingDisk = .ok project ∧
        isCached project plainArguments = true ∧
        IsApart collidingDisk project plainArguments ∧
        MissesOwnFiles collidingDisk project plainArguments ∧
        first.status = .success ∧
        second.disk.readBytes (cachePathOf project plainArguments) ≠
          first.disk.readBytes (cachePathOf project plainArguments)) ∧
    (let project := plainProject deepCatalogDisk.cwdPath
      let first := run "first" deepCatalogDisk (.unused detourArguments)
      let second := run "second" first.disk (.unused detourArguments)
      deepCatalogDisk.IsSound ∧ Project.load deepCatalogDisk = .ok project ∧
        isCached project detourArguments = true ∧
        IsApart deepCatalogDisk project detourArguments ∧
        NamesTellFiles deepCatalogDisk project detourArguments ∧
        first.status = .findings ∧ second.status = .success) := by
  constructor
  · decide +kernel
  · decide +kernel

end UnusedKeys
end Audit
end CatalogAudit
