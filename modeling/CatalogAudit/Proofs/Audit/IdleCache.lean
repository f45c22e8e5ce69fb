import CatalogAudit.Proofs.Audit.Finish

/-!
# Cache files that make no difference

A cache file that cannot be used is like none, and an audit that does not use the cache is the same
with any cache file and without one. The scan does not take the file as a source, and the search for
the settings has to end elsewhere.
-/

namespace CatalogAudit

open FileTree (Disk Location)

namespace MatchCache

def rowsOf? (content : Utf8.Bytes) : Option (List CacheRow) :=
  (textOf? content).bind fun text =>
    (Json.decode (Json.readList CacheRow.shape.read) (bytesOf text)).toOption

theorem exists_rows_of_readRecords {disk : Disk} {path : Path}
    {records : SortedMap String MatchRecord} (h : readRecords disk path = .ok records) :
    ∃ content rows, disk.readBytes path = .ok content ∧ rowsOf? content = some rows := by
  rcases bind_eq_ok.mp h with ⟨text, hText, hRows⟩
  rcases bind_eq_ok.mp hRows with ⟨rows, hDecode, _⟩
  rcases bind_eq_ok.mp (withContext_eq_ok.mp hText) with ⟨content, hRead, hContent⟩
  refine ⟨content, rows, hRead, ?_⟩
  unfold rowsOf?
  cases hChars : textOf? content with
  | none =>
      rw [hChars] at hContent
      cases hContent
  | some chars =>
      rw [hChars] at hContent
      cases hContent
      exact toOption_eq_some.mpr (withContext_eq_ok.mp hDecode)

theorem load_of_unusable {disk : Disk} {root : Path} {place : Location}
    (hPlace : disk.place? (Path.join root fileName) = some place)
    (h : ∀ content, disk.top.at? place = some (.file content) → rowsOf? content = none) :
    load disk root = new (Path.join root fileName) := by
  cases hRecords : readRecords disk (Path.join root fileName) with
  | error fault => exact load_of_error hRecords
  | ok records =>
      rcases exists_rows_of_readRecords hRecords with ⟨content, rows, hRead, hRows⟩
      have hContent := Disk.toOption_readBytes_of_place? hPlace
      rw [toOption_eq_some.mpr hRead] at hContent
      rcases Option.bind_eq_some_iff.mp hContent.symm with ⟨node, hNode, hInside⟩
      cases node with
      | file inside =>
          cases hInside
          cases hRows.symm.trans (h content hNode)
      | link target => cases hInside
      | directory entries => cases hInside

end MatchCache

namespace Audit
namespace UnusedKeys

open Catalog (FlatCatalog)
open CommandLine (UnusedArguments)

/-!
# What is seen
-/

/--
The cache file is at the place, and nothing else that the audit reads or writes. The scan can see
that the file there is excluded.
-/
structure HoldsOnlyCache (disk : Disk) (project : Project) (arguments : UnusedArguments)
    (place : Location) : Prop where
  cache : disk.place? (cachePathOf project arguments) = some place
  catalog : ∀ path, catalogPath project arguments = .ok path → disk.place? path ≠ some place
  ignoreList : ∀ path, ignoreListPath? project arguments = some path →
    disk.place? path ≠ some place
  output : disk.place? (outputOf project arguments) ≠ some place
  missed : SourceScan.Misses disk (scanRequest project arguments) place

section Views

variable {disk other : Disk} {arguments : UnusedArguments} {place : Location}

theorem sees_iff (hChanged : other.ChangedAt place disk)
    (hStop : ∀ path, Settings.stop? disk disk.cwdPath = some path →
      disk.place? path ≠ some place)
    (hOnly : ∀ project, Project.load disk = .ok project →
      HoldsOnlyCache disk project arguments place)
    {project : Project} {flat : FlatCatalog} {files : List SourceFile} :
    Sees disk arguments project flat files ↔ Sees other arguments project flat files := by
  have hProject : Project.load disk = .ok project ↔ Project.load other = .ok project := by
    apply Project.load_iff_of_changedAt hChanged
    have hCwd : disk.cwdPath = other.cwdPath := congrArg FileTree.pathTo hChanged.cwd
    rw [← hCwd]
    exact hStop
  have hCatalog : HoldsOnlyCache disk project arguments place → ∀ path,
      catalogPath project arguments = .ok path →
        (Catalog.load disk path = .ok flat ↔ Catalog.load other path = .ok flat) := by
    intro hHolds path hPath
    have hOther := hHolds.catalog path hPath
    rw [hChanged.place?_eq] at hOther
    exact Catalog.load_congr (hChanged.readText_eq hOther)
  have hSources : HoldsOnlyCache disk project arguments place →
      ((∃ paths, SourceScan.find disk (scanRequest project arguments) = .ok paths ∧
          SourceFile.loadAll disk (rootOf project arguments) paths = .ok files) ↔
        ∃ paths, SourceScan.find other (scanRequest project arguments) = .ok paths ∧
          SourceFile.loadAll other (rootOf project arguments) paths = .ok files) := by
    intro hHolds
    apply SourceScan.sources_iff_of_changedAt hChanged
    have hChangedIn : other.ChangedIn (· = place) disk := .of_changedAt hChanged rfl
    exact (SourceScan.misses_iff_of_changedIn hChangedIn).mp hHolds.missed
  constructor
  · intro h
    have hHolds := hOnly project h.project_eq
    rcases h.catalog with ⟨path, hPath, hLoad⟩
    exact ⟨hProject.mp h.project_eq, ⟨path, hPath, (hCatalog hHolds path hPath).mp hLoad⟩,
      (hSources hHolds).mp h.sources⟩
  · intro h
    have hHolds := hOnly project (hProject.mpr h.project_eq)
    rcases h.catalog with ⟨path, hPath, hLoad⟩
    exact ⟨hProject.mpr h.project_eq, ⟨path, hPath, (hCatalog hHolds path hPath).mpr hLoad⟩,
      (hSources hHolds).mpr h.sources⟩

/-- If the cache is in use, its file cannot be used, and on the other disk there is none. -/
def IsIdleCache (disk other : Disk) (project : Project) (arguments : UnusedArguments)
    (place : Location) : Prop :=
  isCached project arguments = true → other.top.at? place = none ∧
    ∀ content, disk.top.at? place = some (.file content) → MatchCache.rowsOf? content = none

theorem cacheAt_eq {project : Project} (hChanged : other.ChangedAt place disk)
    (hPlace : disk.place? (cachePathOf project arguments) = some place)
    (hIdle : IsIdleCache disk other project arguments place) :
    cacheAt other (isCached project arguments) (rootOf project arguments) =
      cacheAt disk (isCached project arguments) (rootOf project arguments) := by
  unfold cacheAt
  cases hCached : isCached project arguments with
  | false => rfl
  | true =>
      rcases hIdle hCached with ⟨hGone, hUnusable⟩
      have hLoad := MatchCache.load_of_unusable hPlace hUnusable
      have hNew : MatchCache.load other (rootOf project arguments) =
          .new (cachePathOf project arguments) := by
        apply MatchCache.load_of_unusable ((hChanged.place?_eq _).symm.trans hPlace)
        intro content hFile
        cases hGone.symm.trans hFile
      exact congrArg some (hNew.trans hLoad.symm)

theorem searched_eq {project : Project} (hChanged : other.ChangedAt place disk)
    (hHolds : HoldsOnlyCache disk project arguments place)
    (hIdle : IsIdleCache disk other project arguments place) (flat : FlatCatalog)
    (files : List SourceFile) :
    searched other arguments project flat files = searched disk arguments project flat files := by
  have hKeys : keysLeft disk (ignoreListPath? project arguments) flat.keys =
      keysLeft other (ignoreListPath? project arguments) flat.keys := by
    apply keysLeft_congr
    intro path hPath
    have hOther := hHolds.ignoreList path hPath
    rw [hChanged.place?_eq] at hOther
    exact hChanged.readText_eq hOther
  unfold searched
  rw [hKeys, cacheAt_eq hChanged hHolds.cache hIdle]

end Views

/-!
# Two runs
-/

/--
The runs on two disks tell the same and leave the same report, apart from the time, and the same
cache file. Where there is no report, what was at its path before is still there.
-/
structure Alike (time time' : String) (arguments : UnusedArguments) (disk other : Disk)
    (first second : Outcome) : Prop where
  status : second.status = first.status
  output : Console.outputLines second.result = Console.outputLines first.result
  report : ∀ project, Project.load disk = .ok project →
    (∃ findings warnings,
      first.disk.readBytes (outputOf project arguments) =
          .ok (bytesOf (Report.unusedText (.at time) findings warnings)) ∧
        second.disk.readBytes (outputOf project arguments) =
          .ok (bytesOf (Report.unusedText (.at time') findings warnings))) ∨
      first.status = .failure ∧
        (second.disk.readBytes (outputOf project arguments)).toOption =
          (first.disk.readBytes (outputOf project arguments)).toOption
  cacheFile : ∀ project, Project.load disk = .ok project →
    isCached project arguments = true →
      (∃ content, first.disk.readBytes (cachePathOf project arguments) = .ok content ∧
        second.disk.readBytes (cachePathOf project arguments) = .ok content) ∨
      first.status = .failure ∧ first.disk = disk ∧ second.disk = other

section Alike

variable {time time' : String} {arguments : UnusedArguments} {disk other : Disk}
  {place : Location} {project : Project} {flat : FlatCatalog} {files : List SourceFile}
  {first second : Outcome}

theorem alike_of_unchanged (hChanged : other.ChangedAt place disk)
    (hOnly : ∀ project, Project.load disk = .ok project →
      HoldsOnlyCache disk project arguments place)
    (hStatus : first.status = .failure) (hStatus' : second.status = .failure)
    (hOutput : Console.outputLines second.result = Console.outputLines first.result)
    (hDisk : first.disk = disk) (hDisk' : second.disk = other) :
    Alike time time' arguments disk other first second where
  status := hStatus'.trans hStatus.symm
  output := hOutput
  report := by
    intro project hProject
    have hOther := (hOnly project hProject).output
    rw [hChanged.place?_eq] at hOther
    rw [hDisk, hDisk']
    exact Or.inr ⟨hStatus, (hChanged.readBytes_eq hOther).symm⟩
  cacheFile := fun _ _ _ => Or.inr ⟨hStatus, hDisk, hDisk'⟩

theorem exists_text_of_cached {text? : Option String}
    (hText : text?.isSome = isCached project arguments)
    (hCached : isCached project arguments = true) : ∃ text, text? = some text := by
  rw [hCached] at hText
  exact Option.isSome_iff_exists.mp hText

theorem alike_of_done (hChanged : other.ChangedAt place disk)
    (hProject : Project.load disk = .ok project)
    (hHolds : HoldsOnlyCache disk project arguments place) {text? : Option String}
    (hText : text?.isSome = isCached project arguments) {saved saved' : Disk}
    (hPuts : Puts text? (cachePathOf project arguments) disk saved)
    (hPuts' : Puts text? (cachePathOf project arguments) other saved')
    {findings : UnusedFindings} {warnings : List Catalog.Warning}
    (hWrite : Report.write saved (outputOf project arguments)
      (Report.unusedText (.at time) findings warnings) = .ok first.disk)
    (hWrite' : Report.write saved' (outputOf project arguments)
      (Report.unusedText (.at time') findings warnings) = .ok second.disk)
    (hStatus : second.status = first.status) (hResult : second.result = first.result) :
    Alike time time' arguments disk other first second := by
  have hDifferent : disk.place? (outputOf project arguments) ≠
      disk.place? (cachePathOf project arguments) := by
    rw [hHolds.cache]
    exact hHolds.output
  have hLeft := (leaves_of_writes hChanged.sound' hDifferent hPuts hWrite).2
  rw [hChanged.place?_eq, hChanged.place?_eq] at hDifferent
  have hLeft' := (leaves_of_writes hChanged.sound hDifferent hPuts' hWrite').2
  constructor
  case status => exact hStatus
  case output => rw [hResult]
  case report =>
    intro project' hProject'
    cases hProject.symm.trans hProject'
    exact Or.inl ⟨findings, warnings, hLeft.report, hLeft'.report⟩
  case cacheFile =>
    intro project' hProject' hCached
    cases hProject.symm.trans hProject'
    rcases exists_text_of_cached hText hCached with ⟨text, hSome⟩
    exact Or.inl ⟨bytesOf text, hLeft.cache text hSome, hLeft'.cache text hSome⟩

theorem alike_of_unreported (hChanged : other.ChangedAt place disk)
    (hProject : Project.load disk = .ok project)
    (hHolds : HoldsOnlyCache disk project arguments place) {text? : Option String}
    (hText : text?.isSome = isCached project arguments)
    (hPuts : Puts text? (cachePathOf project arguments) disk first.disk)
    (hPuts' : Puts text? (cachePathOf project arguments) other second.disk)
    (hStatus : first.status = .failure) (hStatus' : second.status = .failure)
    (hOutput : Console.outputLines second.result = Console.outputLines first.result) :
    Alike time time' arguments disk other first second := by
  rcases changedIn_of_puts hChanged.sound' hPuts with ⟨hFirst, hRead⟩
  rcases changedIn_of_puts hChanged.sound hPuts' with ⟨hSecond, hRead'⟩
  constructor
  case status => exact hStatus'.trans hStatus.symm
  case output => exact hOutput
  case report =>
    intro project' hProject'
    cases hProject.symm.trans hProject'
    have hOther := hHolds.output
    -- The cache is all that has changed, so the output paths still lead to the same.
    have hSame : (first.disk.readBytes (outputOf project arguments)).toOption =
        (disk.readBytes (outputOf project arguments)).toOption := by
      apply hFirst.readBytes_eq
      intro place' hPlace hCache
      cases hHolds.cache.symm.trans hCache
      exact hOther hPlace
    have hSame' : (second.disk.readBytes (outputOf project arguments)).toOption =
        (other.readBytes (outputOf project arguments)).toOption := by
      apply hSecond.readBytes_eq
      intro place' hPlace hCache
      rw [← hChanged.place?_eq] at hPlace hCache
      cases hHolds.cache.symm.trans hCache
      exact hOther hPlace
    rw [hChanged.place?_eq] at hOther
    refine Or.inr ⟨hStatus, ?_⟩
    rw [hSame, hSame', hChanged.readBytes_eq hOther]
  case cacheFile =>
    intro project' hProject' hCached
    cases hProject.symm.trans hProject'
    rcases exists_text_of_cached hText hCached with ⟨text, hSome⟩
    exact Or.inl ⟨bytesOf text, hRead text hSome, hRead' text hSome⟩

theorem exists_puts_iff (hChanged : other.ChangedAt place disk) (text? : Option String)
    (path : Path) :
    (∃ saved, Puts text? path disk saved) ↔ ∃ saved, Puts text? path other saved := by
  cases text? with
  | none => exact iff_of_true ⟨disk, rfl⟩ ⟨other, rfl⟩
  | some text => exact (hChanged.exists_write_iff path (bytesOf text) (bytesOf text)).symm

theorem exists_write_iff_of_puts (hChanged : other.ChangedAt place disk) {text? : Option String}
    {path : Path} {saved saved' : Disk} (hPuts : Puts text? path disk saved)
    (hPuts' : Puts text? path other saved') (output : Path) (content : Utf8.Bytes) :
    (∃ written, saved.write output content = .ok written) ↔
      ∃ written, saved'.write output content = .ok written := by
  have hSaved := (changedIn_of_puts hChanged.sound' hPuts).1
  have hSaved' := (changedIn_of_puts hChanged.sound hPuts').1
  exact (hSaved.exists_write_iff _ content content).symm.trans
    ((hChanged.exists_write_iff _ content content).symm.trans
      (hSaved'.exists_write_iff _ content content))

theorem alike_of_finishes (hChanged : other.ChangedAt place disk)
    (hOnly : ∀ project, Project.load disk = .ok project →
      HoldsOnlyCache disk project arguments place)
    (hProject : Project.load disk = .ok project)
    (hIdle : IsIdleCache disk other project arguments place)
    {final final' : Disk} {result result' : Except Failure Summary}
    (h : Finishes time arguments disk project flat files result final)
    (h' : Finishes time' arguments other project flat files result' final')
    (hFirst : first.disk = final ∧ first.result = result ∧
      first.status = statusOf arguments.strict result)
    (hSecond : second.disk = final' ∧ second.result = result' ∧
      second.status = statusOf arguments.strict result') :
    Alike time time' arguments disk other first second := by
  have hHolds := hOnly project hProject
  have hSearched := searched_eq hChanged hHolds hIdle flat files
  have hSame : savedText? other arguments project flat files =
      savedText? disk arguments project flat files := by
    unfold savedText?
    rw [hSearched]
  have hText := isSome_savedText? disk arguments project flat files
  have hCanSave := exists_puts_iff hChanged (savedText? disk arguments project flat files)
    (cachePathOf project arguments)
  rcases hFirst with ⟨rfl, hResult, hStatus⟩
  rcases hSecond with ⟨rfl, hResult', hStatus'⟩
  -- Saving and writing succeed on both disks or on neither, so two runs end in the same way.
  cases h with
  | done hPuts hWrite =>
      cases h' with
      | done hPuts' hWrite' =>
          rw [hSame] at hPuts'
          rw [hSearched] at hWrite' hResult' hStatus'
          exact alike_of_done hChanged hProject hHolds hText hPuts hPuts' hWrite hWrite'
            (hStatus'.trans hStatus.symm) (hResult'.trans hResult.symm)
      | unreported hPuts' hWrite' =>
          rw [hSame] at hPuts'
          have hCanWrite := exists_write_iff_of_puts hChanged hPuts hPuts'
            (outputOf project arguments)
          exact absurd ((hCanWrite _).mp ⟨_, Report.write_eq_ok.mp hWrite⟩) (hWrite' _)
      | unsaved hPuts' =>
          rw [hSame] at hPuts'
          exact absurd (hCanSave.mp ⟨_, hPuts⟩) hPuts'
  | unreported hPuts hWrite =>
      cases h' with
      | done hPuts' hWrite' =>
          rw [hSame] at hPuts'
          have hCanWrite := exists_write_iff_of_puts hChanged hPuts hPuts'
            (outputOf project arguments)
          exact absurd ((hCanWrite _).mpr ⟨_, Report.write_eq_ok.mp hWrite'⟩) (hWrite _)
      | unreported hPuts' hWrite' =>
          rw [hSame] at hPuts'
          exact alike_of_unreported hChanged hProject hHolds hText hPuts hPuts' hStatus hStatus'
            (by rw [hResult, hResult']; rfl)
      | unsaved hPuts' =>
          rw [hSame] at hPuts'
          exact absurd (hCanSave.mp ⟨_, hPuts⟩) hPuts'
  | unsaved hPuts =>
      cases h' with
      | done hPuts' hWrite' =>
          rw [hSame] at hPuts'
          exact absurd (hCanSave.mpr ⟨_, hPuts'⟩) hPuts
      | unreported hPuts' hWrite' =>
          rw [hSame] at hPuts'
          exact absurd (hCanSave.mpr ⟨_, hPuts'⟩) hPuts
      | unsaved hPuts' =>
          exact alike_of_unchanged hChanged hOnly hStatus hStatus'
            (by rw [hResult, hResult']; rfl) rfl rfl

/--
An audit whose cache file cannot be used goes as if there were none, and an audit without a cache
goes the same with any cache file and without one. The file must not be anything else that the
audit reads or writes, and the search for the settings must not end at it.
-/
theorem alike_run_idleCache (hChanged : other.ChangedAt place disk)
    (hStop : ∀ path, Settings.stop? disk disk.cwdPath = some path →
      disk.place? path ≠ some place)
    (hOnly : ∀ project, Project.load disk = .ok project →
      HoldsOnlyCache disk project arguments place)
    (hIdle : ∀ project, Project.load disk = .ok project →
      IsIdleCache disk other project arguments place) (time time' : String) :
    Alike time time' arguments disk other (run time disk (.unused arguments))
      (run time' other (.unused arguments)) := by
  by_cases hSees : ∃ project flat files, Sees disk arguments project flat files
  · rcases hSees with ⟨project, flat, files, hSees⟩
    have hSees' := (sees_iff hChanged hStop hOnly).mp hSees
    exact alike_of_finishes hChanged hOnly hSees.project_eq (hIdle project hSees.project_eq)
      (finishes_run time hSees) (finishes_run time' hSees') ⟨rfl, rfl, rfl⟩ ⟨rfl, rfl, rfl⟩
  · have hNot : ∀ project flat files, ¬Sees disk arguments project flat files :=
      fun project flat files h => hSees ⟨project, flat, files, h⟩
    have hNot' : ∀ project flat files, ¬Sees other arguments project flat files :=
      fun project flat files h => hNot project flat files ((sees_iff hChanged hStop hOnly).mpr h)
    rcases failure_of_not_sees time hNot with ⟨⟨failure, hResult⟩, hDisk⟩
    rcases failure_of_not_sees time' hNot' with ⟨⟨failure', hResult'⟩, hDisk'⟩
    apply alike_of_unchanged hChanged hOnly _ _ _ hDisk hDisk'
    · rw [status_run, hResult]
      rfl
    · rw [status_run, hResult']
      rfl
    · rw [hResult, hResult']
      rfl

end Alike

def bareDisk : Disk where
  top := .directory [
    (Settings.fileName, .file (bytesOf "\x7b\"sourcePatterns\":[\"*\"]\x7d")),
    (bytesOf "a.ts", .file (bytesOf "t('menu.open')")),
    (bytesOf "en.json",
      .file (bytesOf "\x7b\"menu\":\x7b\"open\":\"Open\",\"close\":\"Close\"\x7d\x7d"))]
  cwd := []

theorem changedAt_bareDisk : bareDisk.ChangedAt [MatchCache.fileName] crowdedDisk := by
  have hFree : bareDisk.top.IsFilePlace ([] ++ [MatchCache.fileName]) := Or.inl rfl
  have hAgree := FileTree.agreeBeside_put hFree (bytesOf "[")
  exact ⟨by decide +kernel, isSound_crowdedDisk, rfl, hAgree, bytesOf "[", rfl⟩

theorem holdsOnlyCache_crowdedDisk (noCache : Bool) :
    HoldsOnlyCache crowdedDisk crowdedProject { crowdedArguments with noCache := noCache }
      [MatchCache.fileName] := by
  have hCache : crowdedDisk.place? (cachePathOf crowdedProject crowdedArguments) =
      some [MatchCache.fileName] := by
    decide +kernel
  have hOutput : crowdedDisk.place? (outputOf crowdedProject crowdedArguments) ≠
      some [MatchCache.fileName] := by
    decide +kernel
  have hMissed : SourceScan.Misses crowdedDisk (scanRequest crowdedProject crowdedArguments)
      [MatchCache.fileName] := by
    decide +kernel
  constructor
  case cache => exact hCache
  case catalog =>
    intro path hPath
    cases hPath
    decide +kernel
  case ignoreList =>
    intro path hPath
    cases hPath
  case output => exact hOutput
  case missed => exact hMissed

theorem alike_run_idleCache_crowdedDisk :
    let arguments := { crowdedArguments with noCache := true }
    Alike "first" "second" crowdedArguments crowdedDisk bareDisk
        (run "first" crowdedDisk (.unused crowdedArguments))
        (run "second" bareDisk (.unused crowdedArguments)) ∧
      Alike "first" "second" arguments crowdedDisk bareDisk
        (run "first" crowdedDisk (.unused arguments))
        (run "second" bareDisk (.unused arguments)) := by
  intro arguments
  have hProject : Project.load crowdedDisk = .ok crowdedProject := by
    decide +kernel
  have hStop : ∀ path ∈ Settings.stop? crowdedDisk crowdedDisk.cwdPath,
      crowdedDisk.place? path ≠ some [MatchCache.fileName] := by
    decide +kernel
  constructor
  · apply alike_run_idleCache changedAt_bareDisk hStop
    · intro project h
      cases hProject.symm.trans h
      exact holdsOnlyCache_crowdedDisk false
    · intro project h _
      cases hProject.symm.trans h
      refine ⟨rfl, ?_⟩
      intro content hContent
      cases hContent
      decide +kernel
  · apply alike_run_idleCache changedAt_bareDisk hStop
    · intro project h
      cases hProject.symm.trans h
      exact holdsOnlyCache_crowdedDisk true
    · intro project h hCached
      cases hProject.symm.trans h
      cases hCached

/-!
# Cache files that are found in other ways

The search for the settings can end at the cache file, by way of a link, and a path that takes a
detour in a deep directory hides from the scan that the file is excluded.
-/

/-- A project below a settings file, whose `.git` entry leads to the cache file. -/
def linkedDisk (cacheFile : FileTree.Entries) : Disk where
  top := .directory [
    (Settings.fileName, .file (bytesOf "\x7b\"sourcePatterns\":[\"*.vue\"]\x7d")),
    (bytesOf "app", .directory ((Settings.repositoryMark, .link MatchCache.fileName) :: cacheFile ++
      [(bytesOf "a.ts", .file (bytesOf "t('menu')")),
        (bytesOf "en.json", .file (bytesOf "\x7b\"menu\":\"Menu\"\x7d"))]))]
  cwd := [bytesOf "app"]

def linkedArguments : UnusedArguments :=
  { UnusedArguments.blank with
    path := some [Path.dot], localePath := some (bytesOf "en.json"),
    output := some (bytesOf "out.yml"), strict := true }

/-- A deep project whose pattern matches the cache file alone. -/
def deepCacheDisk (cacheFile : FileTree.Entries) : Disk :=
  SourceScan.deepDisk (cacheFile ++ [
    (Settings.fileName,
      .file (bytesOf "\x7b\"sourcePatterns\":[\".i18n-validator.json\"]\x7d")),
    (SourceScan.longName, .link (bytesOf "sub")),
    (bytesOf "en.json", .file (bytesOf "\x7b\"menu\":\"Menu\"\x7d")),
    (bytesOf "sub", .directory [])])

def deepCacheArguments : UnusedArguments :=
  { linkedArguments with path := some SourceScan.wayAround }

/-- The cache file is at the place, and no other file that the audit names. -/
def IsOwnCacheFile (disk : Disk) (arguments : UnusedArguments) (place : Location) : Prop :=
  ∃ project ∈ (Project.load disk).toOption,
    disk.place? (cachePathOf project arguments) = some place ∧
      (∀ path ∈ project.file, disk.place? path ≠ some place) ∧
      (∀ path ∈ (catalogPath project arguments).toOption, disk.place? path ≠ some place) ∧
      (∀ path ∈ ignoreListPath? project arguments, disk.place? path ≠ some place) ∧
      disk.place? (outputOf project arguments) ≠ some place

instance (disk : Disk) (arguments : UnusedArguments) (place : Location) :
    Decidable (IsOwnCacheFile disk arguments place) :=
  inferInstanceAs (Decidable (∃ project ∈ (Project.load disk).toOption, _))

/--
In the first project there is a repository where the search for the settings ends only with the
cache file there, so the cache file decides which settings count. In the second one the cache file
is scanned as a source. Neither file can be used, and with `noCache` it is not even to be used.
-/
theorem status_run_linkedDisk :
    (let place := [bytesOf "app", MatchCache.fileName]
      let broken := linkedDisk [(MatchCache.fileName, .file (bytesOf "["))]
      let bare := linkedDisk []
      let unused := { linkedArguments with noCache := true }
      (IsOwnCacheFile broken linkedArguments place ∧ MatchCache.rowsOf? (bytesOf "[") = none ∧
        broken.place? (bytesOf "/app/.git") = some place) ∧
      ((run "now" broken (.unused linkedArguments)).status = .success ∧
        (run "now" bare (.unused linkedArguments)).status = .findings) ∧
      (run "now" broken (.unused unused)).status = .success ∧
        (run "now" bare (.unused unused)).status = .findings) ∧
    (let place := SourceScan.deepLocation ++ [MatchCache.fileName]
      let broken := deepCacheDisk [(MatchCache.fileName, .file (bytesOf "'menu'"))]
      let bare := deepCacheDisk []
      let unused := { deepCacheArguments with noCache := true }
      (IsOwnCacheFile broken deepCacheArguments place ∧
        MatchCache.rowsOf? (bytesOf "'menu'") = none ∧
        broken.canonicalPlace? (SourceScan.pathBelow SourceScan.wayAround [MatchCache.fileName]) =
          none) ∧
      ((run "now" broken (.unused deepCacheArguments)).status = .success ∧
        (run "now" bare (.unused deepCacheArguments)).status = .findings) ∧
      (run "now" broken (.unused unused)).status = .success ∧
        (run "now" bare (.unused unused)).status = .findings) := by
  constructor
  · decide +kernel
  · decide +kernel

end UnusedKeys
end Audit
end CatalogAudit
