import CatalogAudit.Proofs.Audit.IdleCache
import CatalogAudit.Proofs.Source.Spelling

/-!
# Audits from two spellings of the source root

An audit of unused keys may be given its source root by any path to the directory. The files have
the same names and digests below each of them, and the cache file is the same file, so the audit
finds the same, and what it has saved from one spelling is confirmed from the other.
-/

namespace CatalogAudit

open FileTree (Disk Entries Location)

/-!
# Caches kept at another path
-/

namespace MatchCache

def keptAt (cache : MatchCache) (path : Path) : MatchCache :=
  { cache with path := path }

theorem load_eq_keptAt {disk : Disk} {root root' : Path}
    (h : disk.place? (Path.join root' fileName) = disk.place? (Path.join root fileName)) :
    load disk root' = (load disk root).keptAt (Path.join root' fileName) := by
  have hRecords : ∀ records, readRecords disk (Path.join root' fileName) = .ok records ↔
      readRecords disk (Path.join root fileName) = .ok records := by
    intro records
    simp only [readRecords, bind_eq_ok, withContext_eq_ok,
      eq_ok_congr (Disk.toOption_readText_congr h)]
  cases hRead : readRecords disk (Path.join root fileName) with
  | ok records =>
      rw [load_of_readRecords hRead, load_of_readRecords ((hRecords records).mpr hRead)]
      rfl
  | error fault =>
      cases hRead' : readRecords disk (Path.join root' fileName) with
      | ok records => cases hRead.symm.trans ((hRecords records).mp hRead')
      | error fault' =>
          rw [load_of_error hRead, load_of_error hRead']
          rfl

end MatchCache

namespace Usage

theorem rememberAll_keptAt (cache : MatchCache) (path : Path) (searches : List FileSearch) :
    rememberAll (cache.keptAt path) searches = (rememberAll cache searches).keptAt path := by
  induction searches generalizing cache with
  | nil => rfl
  | cons result searches ih =>
      exact ih (cache.remember result.file.name result.file.hash result.found)

/-- A run keeps the path of its cache and looks at nothing but the records. -/
theorem run_keptAt (maxDepth : DepthBound) (keys : KeySet) (files : List SourceFile)
    (cache : Option MatchCache) (path : Path) :
    (run maxDepth keys files (cache.map (·.keptAt path))).findings =
        (run maxDepth keys files cache).findings ∧
      (run maxDepth keys files (cache.map (·.keptAt path))).cache =
        (run maxDepth keys files cache).cache.map (·.keptAt path) := by
  have hPasses : (passes maxDepth files 0 keys (cache.map (·.keptAt path))).survivors =
        (passes maxDepth files 0 keys cache).survivors ∧
      (passes maxDepth files 0 keys (cache.map (·.keptAt path))).cache =
        (passes maxDepth files 0 keys cache).cache.map (·.keptAt path) := by
    apply passes_of_related (fun first second => first = second.map (·.keptAt path)) _ rfl
    intro candidates first second hSame
    subst hSame
    cases second with
    | none => exact ⟨rfl, rfl⟩
    | some cache => exact ⟨rfl, congrArg some (rememberAll_keptAt cache path _)⟩
  exact ⟨findings_run_congr hPasses.1, hPasses.2⟩

end Usage

/-!
# Two spellings
-/

namespace Audit
namespace UnusedKeys

open Catalog (FlatCatalog)
open CommandLine (UnusedArguments)
open SourceScan (AsksSame IsReadable)

def fromRoot (arguments : UnusedArguments) (root : Path) : UnusedArguments :=
  { arguments with path := some root }

/--
The paths lead to the same directory, and to the same cache file in it. Behind both of them
everything that the scan visits has a path that can be used, and what is excluded is known.
-/
structure Spells (disk : Disk) (arguments : UnusedArguments) (root root' : Path) : Prop where
  directory : ∃ location entries,
    disk.resolve root = .ok (location, .directory entries) ∧
      disk.resolve root' = .ok (location, .directory entries) ∧
      ∀ project, Project.load disk = .ok project →
        IsReadable (scanRequest project (fromRoot arguments root)) entries ∧
          IsReadable (scanRequest project (fromRoot arguments root')) entries ∧
          AsksSame disk location (scanRequest project (fromRoot arguments root))
            (scanRequest project (fromRoot arguments root'))
  cacheFile : disk.place? (Path.join root' MatchCache.fileName) =
    disk.place? (Path.join root MatchCache.fileName)

section Roots

variable {disk : Disk} {arguments : UnusedArguments} {root root' : Path} {project : Project}
  {flat : FlatCatalog} {files : List SourceFile}

theorem Spells.symm (h : Spells disk arguments root root') : Spells disk arguments root' root := by
  rcases h.directory with ⟨location, entries, hRoot, hRoot', hScans⟩
  refine ⟨⟨location, entries, hRoot', hRoot, fun project hProject => ?_⟩, h.cacheFile.symm⟩
  rcases hScans project hProject with ⟨hReadable, hReadable', hSame⟩
  exact ⟨hReadable', hReadable, hSame.symm⟩

/-- It is enough that the paths can be used, unless the cache file is a link. -/
theorem spells_of_usable {location : Location} {entries : Entries}
    (hRoot : disk.resolve root = .ok (location, .directory entries))
    (hRoot' : disk.resolve root' = .ok (location, .directory entries))
    (hScans : ∀ project, Project.load disk = .ok project →
      IsReadable (scanRequest project (fromRoot arguments root)) entries ∧
        IsReadable (scanRequest project (fromRoot arguments root')) entries ∧
        AsksSame disk location (scanRequest project (fromRoot arguments root))
          (scanRequest project (fromRoot arguments root')))
    (hPath : Disk.checkPath (Path.join root MatchCache.fileName) = .ok ())
    (hPath' : Disk.checkPath (Path.join root' MatchCache.fileName) = .ok ())
    (hPlain : ∀ text, disk.top.at? (location ++ [MatchCache.fileName]) ≠ some (.link text)) :
    Spells disk arguments root root' := by
  constructor
  case directory => exact ⟨location, entries, hRoot, hRoot', hScans⟩
  case cacheFile =>
    unfold Disk.place?
    rw [Disk.locate_join_congr hRoot hRoot' MatchCache.isFileName_fileName hPath hPath' hPlain]

theorem Spells.sees (h : Spells disk arguments root root') (hSound : disk.IsSound)
    (hSees : Sees disk (fromRoot arguments root) project flat files) :
    Sees disk (fromRoot arguments root') project flat files := by
  rcases h.directory with ⟨location, entries, hRoot, hRoot', hScans⟩
  rcases hScans project hSees.project_eq with ⟨hReadable, hReadable', hSame⟩
  exact ⟨hSees.project_eq, hSees.catalog,
    hSame.sources hSound hRoot hRoot' hReadable hReadable' hSees.sources⟩

theorem Spells.cacheAt_eq (h : Spells disk arguments root root') (isEnabled : Bool) :
    cacheAt disk isEnabled root' =
      (cacheAt disk isEnabled root).map (·.keptAt (Path.join root' MatchCache.fileName)) := by
  cases isEnabled with
  | false => rfl
  | true => exact congrArg some (MatchCache.load_eq_keptAt h.cacheFile)

theorem Spells.searched_eq (h : Spells disk arguments root root') (project : Project)
    (flat : FlatCatalog) (files : List SourceFile) :
    (searched disk (fromRoot arguments root') project flat files).findings =
        (searched disk (fromRoot arguments root) project flat files).findings ∧
      savedText? disk (fromRoot arguments root') project flat files =
        savedText? disk (fromRoot arguments root) project flat files := by
  have hSearched : searched disk (fromRoot arguments root') project flat files =
      Usage.run (depthOf project arguments)
        (keysLeft disk (ignoreListPath? project arguments) flat.keys) files
        ((cacheAt disk (isCached project arguments) root).map
          (·.keptAt (Path.join root' MatchCache.fileName))) := by
    rw [← h.cacheAt_eq]
    rfl
  have hRun := Usage.run_keptAt (depthOf project arguments)
    (keysLeft disk (ignoreListPath? project arguments) flat.keys) files
    (cacheAt disk (isCached project arguments) root) (Path.join root' MatchCache.fileName)
  unfold savedText?
  rw [hSearched, hRun.1, hRun.2, Option.map_map]
  exact ⟨rfl, rfl⟩

theorem Spells.endsInSlash_cacheFile (h : Spells disk arguments root root') :
    Disk.endsInSlash (Path.join root MatchCache.fileName) = false := by
  rcases h.directory with ⟨_, _, hRoot, _⟩
  exact Disk.endsInSlash_join (Disk.ne_nil_of_resolve hRoot) MatchCache.isFileName_fileName.isPart

theorem Spells.puts_iff (h : Spells disk arguments root root') {text? : Option String}
    {saved : Disk} :
    Puts text? (Path.join root' MatchCache.fileName) disk saved ↔
      Puts text? (Path.join root MatchCache.fileName) disk saved := by
  cases text? with
  | none => exact Iff.rfl
  | some text =>
      have hSlash := h.symm.endsInSlash_cacheFile.trans h.endsInSlash_cacheFile.symm
      exact Disk.write_eq_ok_congr h.cacheFile hSlash

theorem Spells.finishes (h : Spells disk arguments root root') {time : String}
    {result : Except Failure Summary} {final : Disk}
    (hFinishes : Finishes time (fromRoot arguments root') disk project flat files result final) :
    Finishes time (fromRoot arguments root) disk project flat files result final := by
  rcases h.searched_eq project flat files with ⟨hFindings, hText⟩
  cases hFinishes with
  | done hPuts hWrite =>
      rw [hText] at hPuts
      rw [hFindings] at hWrite ⊢
      exact .done (h.puts_iff.mp hPuts) hWrite
  | unreported hPuts hWrite =>
      rw [hText] at hPuts
      exact .unreported (h.puts_iff.mp hPuts) hWrite
  | unsaved hPuts =>
      rw [hText] at hPuts
      refine .unsaved fun hSaved => ?_
      rcases hSaved with ⟨saved, hSaved⟩
      exact hPuts ⟨saved, h.puts_iff.mpr hSaved⟩

end Roots

/-!
# Two ends of one audit
-/

section Ends

variable {time time' : String} {arguments : UnusedArguments} {disk final final' : Disk}
  {project : Project} {flat : FlatCatalog} {files : List SourceFile}
  {result result' : Except Failure Summary}

theorem Puts.unique {text? : Option String} {path : Path} {saved saved' : Disk}
    (h : Puts text? path disk saved) (h' : Puts text? path disk saved') : saved' = saved := by
  cases text? with
  | none => exact h'.trans h.symm
  | some text =>
      cases h.symm.trans h'
      rfl

/-- Both have written the same report beside the same cache file, or both have failed there. -/
inductive SameEnd (time time' : String) (output cacheFile : Path) (disk : Disk) :
    Except Failure Summary → Except Failure Summary → Disk → Disk → Prop
  | done {summary : Summary} {findings : UnusedFindings} {warnings : List Catalog.Warning}
      {saved final final' : Disk}
      (hSaved : disk.ChangedIn (fun place => disk.place? cacheFile = some place) saved)
      (hWrite : Report.write saved output (Report.unusedText (.at time) findings warnings) =
        .ok final)
      (hWrite' : Report.write saved output (Report.unusedText (.at time') findings warnings) =
        .ok final') :
      SameEnd time time' output cacheFile disk (.ok summary) (.ok summary) final final'
  | failed {failure failure' : Failure} {final : Disk}
      (hSaved : disk.ChangedIn (fun place => disk.place? cacheFile = some place) final) :
      SameEnd time time' output cacheFile disk (.error failure) (.error failure') final final

theorem sameEnd_of_finishes (hSound : disk.IsSound)
    (h : Finishes time arguments disk project flat files result final)
    (h' : Finishes time' arguments disk project flat files result' final') :
    SameEnd time time' (outputOf project arguments) (cachePathOf project arguments) disk result
      result' final final' := by
  -- the reports differ in the time, and whether one can be written does not depend on its text
  have hWritable : ∀ {saved saved' written : Disk} {content content' : Utf8.Bytes},
      saved' = saved → saved.write (outputOf project arguments) content = .ok written →
        ∃ written', saved'.write (outputOf project arguments) content' = .ok written' := by
    intro saved saved' written content content' hSame hWrite
    rw [hSame]
    exact (Disk.exists_write_iff content').mpr ((Disk.exists_write_iff content).mp ⟨_, hWrite⟩)
  cases h with
  | done hPuts hWrite =>
      cases h' with
      | done hPuts' hWrite' =>
          cases hPuts.unique hPuts'
          exact .done (changedIn_of_puts hSound hPuts).1 hWrite hWrite'
      | unreported hPuts' hWrite' =>
          exact absurd (hWritable (hPuts.unique hPuts') (Report.write_eq_ok.mp hWrite)) (hWrite' [])
      | unsaved hPuts' => exact absurd ⟨_, hPuts⟩ hPuts'
  | unreported hPuts hWrite =>
      cases h' with
      | done hPuts' hWrite' =>
          exact absurd (hWritable (hPuts'.unique hPuts) (Report.write_eq_ok.mp hWrite')) (hWrite [])
      | unreported hPuts' hWrite' =>
          cases hPuts.unique hPuts'
          exact .failed (changedIn_of_puts hSound hPuts).1
      | unsaved hPuts' => exact absurd ⟨_, hPuts⟩ hPuts'
  | unsaved hPuts =>
      cases h' with
      | done hPuts' hWrite' => exact absurd ⟨_, hPuts'⟩ hPuts
      | unreported hPuts' hWrite' => exact absurd ⟨_, hPuts'⟩ hPuts
      | unsaved hPuts' => exact .failed (.refl disk _)

end Ends

/-!
# Two runs
-/

/--
The runs end alike, with the same findings in the report and with the same cache file. They leave
the same disk, but for the time that the report shows.
-/
structure SameWork (time time' : String) (disk : Disk) (arguments : UnusedArguments)
    (root root' : Path) (first second : Outcome) : Prop where
  status : second.status = first.status
  result : ∀ summary, second.result = .ok summary ↔ first.result = .ok summary
  report : first.status ≠ .failure → ∃ project findings warnings,
    Project.load disk = .ok project ∧
      first.disk.readBytes (outputOf project arguments) =
        .ok (bytesOf (Report.unusedText (.at time) findings warnings)) ∧
      second.disk.readBytes (outputOf project arguments) =
        .ok (bytesOf (Report.unusedText (.at time') findings warnings))
  cacheFile : ∀ project, Project.load disk = .ok project →
    disk.place? (outputOf project arguments) ≠
      disk.place? (Path.join root MatchCache.fileName) →
    (second.disk.readBytes (Path.join root' MatchCache.fileName)).toOption =
      (first.disk.readBytes (Path.join root MatchCache.fileName)).toOption
  leaves : time' = time ∨ first.status = .failure → second.disk = first.disk

section Runs

variable {time time' : String} {disk : Disk} {arguments : UnusedArguments} {root root' : Path}
  {first second : Outcome}

theorem sameWork_of_failed (h : Spells disk arguments root root')
    (hStatus : first.status = statusOf arguments.strict first.result)
    (hStatus' : second.status = statusOf arguments.strict second.result)
    (hResult : ∃ failure, first.result = .error failure)
    (hResult' : ∃ failure, second.result = .error failure)
    {places : Location → Prop} (hChanged : disk.ChangedIn places first.disk)
    (hSame : second.disk = first.disk) :
    SameWork time time' disk arguments root root' first second := by
  rcases hResult with ⟨failure, hResult⟩
  rcases hResult' with ⟨failure', hResult'⟩
  rw [hResult] at hStatus
  rw [hResult'] at hStatus'
  constructor
  case status => exact hStatus'.trans hStatus.symm
  case result => simp [hResult, hResult']
  case report => exact fun hDone => absurd hStatus hDone
  case cacheFile =>
    intro _ _ _
    rw [hSame]
    apply Disk.toOption_readBytes_congr
    rw [hChanged.place?_eq, hChanged.place?_eq, h.cacheFile]
  case leaves => exact fun _ => hSame

theorem sameWork_of_done (h : Spells disk arguments root root') (hSound : disk.IsSound)
    {project : Project} (hProject : Project.load disk = .ok project)
    (hStatus : first.status = statusOf arguments.strict first.result)
    (hStatus' : second.status = statusOf arguments.strict second.result)
    {summary : Summary} (hResult : first.result = .ok summary)
    (hResult' : second.result = .ok summary)
    {findings : UnusedFindings} {warnings : List Catalog.Warning} {saved : Disk}
    (hSaved : disk.ChangedIn
      (fun place => disk.place? (Path.join root MatchCache.fileName) = some place) saved)
    (hWrite : Report.write saved (outputOf project arguments)
      (Report.unusedText (.at time) findings warnings) = .ok first.disk)
    (hWrite' : Report.write saved (outputOf project arguments)
      (Report.unusedText (.at time') findings warnings) = .ok second.disk) :
    SameWork time time' disk arguments root root' first second := by
  have hSavedSound := hSaved.isSound hSound
  rcases Disk.changedAt_of_write hSavedSound (Report.write_eq_ok.mp hWrite) with
    ⟨place, hPlace, hChanged, hRead⟩
  rcases Disk.changedAt_of_write hSavedSound (Report.write_eq_ok.mp hWrite') with
    ⟨_, hPlace', hChanged', hRead'⟩
  cases hPlace.symm.trans hPlace'
  constructor
  case status => rw [hStatus, hStatus', hResult, hResult']
  case result => simp [hResult, hResult']
  case report => exact fun _ => ⟨project, findings, warnings, hProject, hRead, hRead'⟩
  case cacheFile =>
    intro other hOther hApart
    cases hProject.symm.trans hOther
    rw [← hSaved.place?_eq, hPlace, ← hSaved.place?_eq] at hApart
    have hSame : saved.place? (Path.join root' MatchCache.fileName) =
        saved.place? (Path.join root MatchCache.fileName) := by
      rw [hSaved.place?_eq, hSaved.place?_eq, h.cacheFile]
    -- The report goes elsewhere, so both cache files are as they were saved, at one place.
    calc (second.disk.readBytes (Path.join root' MatchCache.fileName)).toOption
        = (saved.readBytes (Path.join root' MatchCache.fileName)).toOption :=
          hChanged'.readBytes_eq (hSame ▸ hApart.symm)
      _ = (saved.readBytes (Path.join root MatchCache.fileName)).toOption :=
          Disk.toOption_readBytes_congr hSame
      _ = (first.disk.readBytes (Path.join root MatchCache.fileName)).toOption :=
          (hChanged.readBytes_eq hApart.symm).symm
  case leaves =>
    intro hTime
    rcases hTime with rfl | hFailed
    · exact Except.ok.inj (hWrite'.symm.trans hWrite)
    · rw [hStatus, hResult] at hFailed
      exact absurd hFailed statusOf_ok_ne_failure

theorem sameWork_of_sameEnd (h : Spells disk arguments root root') (hSound : disk.IsSound)
    {project : Project} (hProject : Project.load disk = .ok project)
    (hStatus : first.status = statusOf arguments.strict first.result)
    (hStatus' : second.status = statusOf arguments.strict second.result)
    (hEnd : SameEnd time time' (outputOf project arguments) (Path.join root MatchCache.fileName)
      disk first.result second.result first.disk second.disk) :
    SameWork time time' disk arguments root root' first second := by
  rcases first with ⟨final, notes, result, status⟩
  rcases second with ⟨final', notes', result', status'⟩
  cases hEnd with
  | done hSaved hWrite hWrite' =>
      exact sameWork_of_done h hSound hProject hStatus hStatus' rfl rfl hSaved hWrite hWrite'
  | failed hSaved =>
      exact sameWork_of_failed h hStatus hStatus' ⟨_, rfl⟩ ⟨_, rfl⟩ hSaved rfl

theorem sameWork_run (h : Spells disk arguments root root') (hSound : disk.IsSound)
    (time time' : String) :
    SameWork time time' disk arguments root root'
      (run time disk (.unused (fromRoot arguments root)))
      (run time' disk (.unused (fromRoot arguments root'))) := by
  have hStatus := status_run time disk (.unused (fromRoot arguments root))
  have hStatus' := status_run time' disk (.unused (fromRoot arguments root'))
  by_cases hSees : ∃ project flat files, Sees disk (fromRoot arguments root) project flat files
  · rcases hSees with ⟨project, flat, files, hSees⟩
    have hEnd := sameEnd_of_finishes hSound (finishes_run time hSees)
      (h.finishes (finishes_run time' (h.sees hSound hSees)))
    exact sameWork_of_sameEnd h hSound hSees.project_eq hStatus hStatus' hEnd
  · have hNot : ∀ project flat files, ¬Sees disk (fromRoot arguments root) project flat files :=
      fun project flat files hOne => hSees ⟨project, flat, files, hOne⟩
    have hNot' : ∀ project flat files, ¬Sees disk (fromRoot arguments root') project flat files :=
      fun project flat files hOne => hNot project flat files (h.symm.sees hSound hOne)
    rcases failure_of_not_sees time hNot with ⟨hResult, hDisk⟩
    rcases failure_of_not_sees time' hNot' with ⟨hResult', hDisk'⟩
    have hUnchanged : disk.ChangedIn (fun _ => False)
        (run time disk (.unused (fromRoot arguments root))).disk := by
      rw [hDisk]
      exact .refl disk _
    exact sameWork_of_failed h hStatus hStatus' hResult hResult' hUnchanged
      (hDisk'.trans hDisk.symm)

end Runs

/--
The root leaves no trace in the names of the files, and neither in the records made from them. Any
two spellings make no difference to an audit, as long as they spell the paths that it has to use.
-/
theorem sameWork_of_spelling :
    (∀ root names, (∀ name ∈ names, Path.IsPart name) →
      Path.nameBelow root (SourceScan.pathBelow root names) =
        "/".intercalate (names.map Path.shown)) ∧
    (∀ disk request paths, disk.IsSound → SourceScan.find disk request = .ok paths →
      ∃ files : List Location, paths = files.map (SourceScan.pathBelow request.root) ∧
        ∀ file ∈ files, ∀ other ∈ files,
          SourceScan.IsText file → SourceScan.IsText other →
            Path.nameBelow request.root (SourceScan.pathBelow request.root file) =
                Path.nameBelow request.root (SourceScan.pathBelow request.root other) →
              file = other) ∧
    (∀ root root' names bytes, (∀ name ∈ names, Path.IsPart name) →
      SourceFile.below root' names bytes = SourceFile.below root names bytes ∧
        ∀ cache keys, ∀ key ∈ keys,
          let file := SourceFile.below root names bytes
          Usage.Confirms (some (MatchCache.remember cache file.name file.hash keys))
            (SourceFile.below root' names bytes) key) ∧
    ∀ disk arguments root root' time time', disk.IsSound → Spells disk arguments root root' →
      SameWork time time' disk arguments root root'
        (run time disk (.unused (fromRoot arguments root)))
        (run time' disk (.unused (fromRoot arguments root'))) := by
  refine ⟨fun root names => SourceScan.nameBelow_pathBelow root, ?_, ?_, ?_⟩
  · exact fun disk request paths hSound hFind => SourceScan.inj_nameBelow_of_find hSound hFind
  · intro root root' names bytes hNames
    have hSame : SourceFile.below root' names bytes = SourceFile.below root names bytes := by
      rw [SourceFile.below_eq root hNames, SourceFile.below_eq root' hNames]
    refine ⟨hSame, ?_⟩
    intro cache keys key hKey file
    rw [hSame, Usage.confirms_iff_holds, MatchCache.holds_remember_self]
    exact ⟨rfl, Or.inl hKey⟩
  · intro disk arguments root root' time time' hSound hSpells
    exact sameWork_run hSpells hSound time time'

def sharedFiles : Entries := [
  (bytesOf "a.ts", .file (bytesOf "t('menu')")),
  (bytesOf "lib", .directory [(bytesOf "b.ts", .file (bytesOf "t('title')"))]),
  (bytesOf "out.ts", .file (bytesOf "t('quit')"))]

def sharedDisk : Disk where
  top := .directory [
    (bytesOf "current", .link (bytesOf "src")),
    (bytesOf "en.json", .file (bytesOf "\x7b\"menu\":\"Menu\",\"quit\":\"Quit\"\x7d")),
    (bytesOf "src", .directory sharedFiles)]
  cwd := []

def sharedArguments : UnusedArguments :=
  { UnusedArguments.blank with
    localePath := some (bytesOf "en.json"), output := some (bytesOf "src/out.ts"), strict := true }

def sharedProject : Project := ⟨.default, none, bytesOf "/"⟩

def sourcePath : Path := bytesOf "src"
def dottedPath : Path := bytesOf "./src/lib/..//"
def linkedPath : Path := bytesOf "/current"

theorem load_sharedDisk : Project.load sharedDisk = .ok sharedProject := by
  decide +kernel

theorem isSound_sharedDisk : sharedDisk.IsSound := by
  decide +kernel

theorem spells_sharedDisk {root : Path}
    (hRoot : sharedDisk.resolve root = .ok ([bytesOf "src"], .directory sharedFiles))
    (hReadable : IsReadable (scanRequest sharedProject (fromRoot sharedArguments root)) sharedFiles)
    (hSame : AsksSame sharedDisk [bytesOf "src"]
      (scanRequest sharedProject (fromRoot sharedArguments sourcePath))
      (scanRequest sharedProject (fromRoot sharedArguments root)))
    (hPath : Disk.checkPath (Path.join root MatchCache.fileName) = .ok ()) :
    Spells sharedDisk sharedArguments sourcePath root := by
  have hSource : sharedDisk.resolve sourcePath =
      .ok ([bytesOf "src"], .directory sharedFiles) := rfl
  apply spells_of_usable hSource hRoot
  · intro project hProject
    cases load_sharedDisk.symm.trans hProject
    exact ⟨by decide +kernel, hReadable, hSame⟩
  · rfl
  · exact hPath
  · intro text hLink
    cases hLink

theorem sameWork_of_spelling_sharedDisk :
    (Spells sharedDisk sharedArguments sourcePath dottedPath ∧
      Spells sharedDisk sharedArguments sourcePath linkedPath) ∧
    (run "first" sharedDisk (.unused (fromRoot sharedArguments sourcePath))).status = .findings ∧
    SameWork "first" "second" sharedDisk sharedArguments sourcePath dottedPath
      (run "first" sharedDisk (.unused (fromRoot sharedArguments sourcePath)))
      (run "second" sharedDisk (.unused (fromRoot sharedArguments dottedPath))) ∧
    SameWork "first" "second" sharedDisk sharedArguments sourcePath linkedPath
      (run "first" sharedDisk (.unused (fromRoot sharedArguments sourcePath)))
      (run "second" sharedDisk (.unused (fromRoot sharedArguments linkedPath))) := by
  have hDots : Spells sharedDisk sharedArguments sourcePath dottedPath :=
    spells_sharedDisk rfl (by decide +kernel) (by decide +kernel) rfl
  have hLink : Spells sharedDisk sharedArguments sourcePath linkedPath :=
    spells_sharedDisk rfl (by decide +kernel) (by decide +kernel) rfl
  refine ⟨⟨hDots, hLink⟩, by decide +kernel, ?_, ?_⟩
  · exact sameWork_of_spelling.2.2.2 _ _ _ _ "first" "second" isSound_sharedDisk hDots
  · exact sameWork_of_spelling.2.2.2 _ _ _ _ "first" "second" isSound_sharedDisk hLink

/-!
# Spellings that make a difference

The paths of the files are longer than the path of their root, so a root can be spelled in a way
that can still be used itself, but leaves no room for the names below it. In a deep directory a
detour hides what is excluded. Names that are no texts are not told apart under any spelling.
-/

def slashedDot (slashes : Nat) : Path :=
  Path.dot :: List.replicate slashes Path.slash

def flatDisk : Disk where
  top := .directory [
    (bytesOf "a.ts", .file (bytesOf "t('menu')")),
    (bytesOf "en.json", .file (bytesOf "\x7b\"menu\":\"Menu\"\x7d"))]
  cwd := []

def flatArguments : UnusedArguments :=
  { UnusedArguments.blank with
    localePath := some (bytesOf "en.json"), output := some (bytesOf "out.yml") }

/--
A spelling with many slashes has no room for the names of the files. From a detour the cache file
is scanned as a source. And two files of a scan share their name.
-/
theorem differs_of_spelling :
    (let short := run "now" flatDisk (.unused (fromRoot flatArguments [Path.dot]))
      let long := run "now" flatDisk (.unused (fromRoot flatArguments (slashedDot 4091)))
      flatDisk.place? (slashedDot 4091) = flatDisk.place? [Path.dot] ∧
        flatDisk.isDirectory (slashedDot 4091) = true ∧ short.status = .success ∧
        long.status = .failure) ∧
    (let disk := deepCacheDisk [(MatchCache.fileName, .file (bytesOf "'menu'"))]
      let plain := run "now" disk (.unused (fromRoot linkedArguments [Path.dot]))
      let around := run "now" disk (.unused (fromRoot linkedArguments SourceScan.wayAround))
      disk.place? SourceScan.wayAround = disk.place? [Path.dot] ∧
        plain.status = .findings ∧ around.status = .success) ∧
    (let request := scanRequest (plainProject (bytesOf "/")) (fromRoot plainArguments (bytesOf "/"))
      let path := bytesOf "/" ++ 0xFE :: bytesOf "/a.ts"
      let other := bytesOf "/" ++ 0xFF :: bytesOf "/a.ts"
      SourceScan.find collidingDisk request = .ok [path, other] ∧ path ≠ other ∧
        Path.nameBelow request.root path = Path.nameBelow request.root other) := by
  refine ⟨?_, ?_, ?_⟩
  · decide +kernel
  · decide +kernel
  · decide +kernel

end UnusedKeys
end Audit
end CatalogAudit
