import CatalogAudit.Proofs.Audit.Confinement
import CatalogAudit.Proofs.Locale.Files

/-!
# Files that a run reads

A run reads its files one after another, and the first that it cannot use ends it. It only goes on
without an ignore list or a cache.
-/

namespace CatalogAudit

open FileTree (Disk Location)

/-!
# Projects and locales
-/

theorem Project.file_of_loadFrom {disk : Disk} {start : Path} {project : Project}
    (h : loadFrom disk start = .ok project) : Settings.find? disk start = project.file := by
  unfold loadFrom at h
  cases hFound : Settings.find? disk start with
  | none =>
      rw [hFound] at h
      cases h
      rfl
  | some path =>
      rw [hFound] at h
      rcases bind_eq_ok.mp h with ⟨settings, _, hProject⟩
      cases hProject
      rfl

section Changed

variable {disk disk' : Disk} {place : Location} (h : disk.ChangedAt place disk')
  (hThere : ∃ content, disk.top.at? place = some (.file content))
include h hThere

theorem Project.load_of_changedAt {project : Project}
    (hFile : ∀ path, project.file = some path → disk.place? path ≠ some place)
    (hLoad : load disk = .ok project) : load disk' = .ok project := by
  have hChanged : disk.ChangedIn (· = place) disk' := .of_changedAt h rfl
  apply load_of_changedIn hChanged _ _ hLoad
  · intro asked _ _ hPlace hSame
    cases hSame
    rcases hThere with ⟨content, hContent⟩
    exact Disk.exists?_iff.mpr ⟨_, Disk.resolve_of_place? hPlace hContent⟩
  · intro path hPath _ hPlace hSame
    cases hSame
    exact hFile path hPath hPlace

theorem Locale.files_of_changedAt {directory : Path} {found : List LocaleFile}
    (hFiles : files disk directory = .ok found) : files disk' directory = .ok found := by
  rcases bind_eq_ok.mp hFiles with ⟨names, hNames, hFound⟩
  have hNames' := h.listDirectory_eq hThere (withContext_eq_ok.mp hNames)
  refine bind_eq_ok.mpr ⟨names, withContext_eq_ok.mpr hNames', ?_⟩
  simp only [h.isFile_eq hThere]
  exact hFound

end Changed

namespace Audit

open CommandLine (Command UnusedArguments UntranslatedArguments)

/-!
# Paths in turn
-/

def pathsAfter (result : Except Fault α) (next : α → List Path) : List Path :=
  match result with
  | .ok value => next value
  | .error _ => []

/-- Of paths that are loaded in turn, those up to the first that cannot be loaded. -/
def readInTurn (load : Path → Except Fault α) : List Path → List Path
  | [] => []
  | path :: behind => path :: pathsAfter (load path) fun _ => readInTurn load behind

theorem mem_pathsAfter {result : Except Fault α} {next : α → List Path} {path : Path} :
    path ∈ pathsAfter result next ↔ ∃ value, result = .ok value ∧ path ∈ next value := by
  cases result with
  | ok value => simp [pathsAfter]
  | error fault => simp [pathsAfter]

theorem mem_of_mem_readInTurn {load : Path → Except Fault α} {paths : List Path}
    {path : Path} (h : path ∈ readInTurn load paths) : path ∈ paths := by
  induction paths with
  | nil => exact h
  | cons first behind ih =>
      rcases List.mem_cons.mp h with rfl | hBehind
      · exact List.mem_cons_self ..
      · rcases mem_pathsAfter.mp hBehind with ⟨_, _, hMem⟩
        exact List.mem_cons_of_mem first (ih hMem)

theorem readInTurn_eq_self {load : Path → Except Fault α} {paths : List Path}
    (h : ∀ path ∈ paths, ∃ value, load path = .ok value) : readInTurn load paths = paths := by
  induction paths with
  | nil => rfl
  | cons first behind ih =>
      rcases h first (List.mem_cons_self ..) with ⟨value, hFirst⟩
      have hBehind := ih fun path hPath => h path (List.mem_cons_of_mem first hPath)
      unfold readInTurn
      rw [hFirst, hBehind]
      rfl

/-!
# Paths of a command
-/

namespace UnusedKeys

def sourcesRead (disk : Disk) (project : Project) (arguments : UnusedArguments) : List Path :=
  pathsAfter (SourceScan.find disk (scanRequest project arguments)) fun paths =>
    readInTurn (SourceFile.load disk (rootOf project arguments)) paths ++
      pathsAfter (SourceFile.loadAll disk (rootOf project arguments) paths) fun _ =>
        if isCached project arguments then [cachePathOf project arguments] else []

def filesRead (disk : Disk) (project : Project) (arguments : UnusedArguments) : List Path :=
  pathsAfter (catalogPath project arguments) fun catalog =>
    catalog :: pathsAfter (Catalog.load disk catalog) fun _ =>
      (ignoreListPath? project arguments).toList ++ sourcesRead disk project arguments

end UnusedKeys

namespace TranslationGaps

def filesRead (disk : Disk) (project : Project) (arguments : UntranslatedArguments) :
    List Path :=
  pathsAfter (Settings.checkLocaleCode (baseOf project arguments)) fun _ =>
    pathsAfter (Locale.files disk (directoryOf project arguments)) fun found =>
      readInTurn (Locale.load disk) (found.map (·.path))

end TranslationGaps

/-- The settings file is read first, and tells what comes after it. -/
def readOnceSettled (disk : Disk) (next : Project → List Path) : List Path :=
  match disk.workingDirectory with
  | .ok start =>
      (Settings.find? disk start).toList ++ pathsAfter (Project.loadFrom disk start) next
  | .error _ => []

theorem readOnceSettled_of_isDirectoryAt {disk : Disk} (h : disk.top.IsDirectoryAt disk.cwd)
    (next : Project → List Path) :
    readOnceSettled disk next =
      (Settings.find? disk disk.cwdPath).toList ++ pathsAfter (Project.load disk) next := by
  unfold readOnceSettled
  rw [Disk.workingDirectory_eq_ok.mpr ⟨h, rfl⟩, Project.load_eq_loadFrom h]

theorem readOnceSettled_of_load {disk : Disk} {project : Project}
    (h : Project.load disk = .ok project) (next : Project → List Path) :
    readOnceSettled disk next = project.file.toList ++ next project := by
  rcases Project.load_eq_ok.mp h with ⟨hDirectory, hFrom⟩
  rw [readOnceSettled_of_isDirectoryAt hDirectory, Project.file_of_loadFrom hFrom, h]
  rfl

def filesRead (disk : Disk) : Command → List Path
  | .unused arguments => readOnceSettled disk fun project =>
      UnusedKeys.filesRead disk project arguments
  | .untranslated arguments => readOnceSettled disk fun project =>
      TranslationGaps.filesRead disk project arguments
  | .init => []

/-!
# Files that are not read

An audit that can read its own files finds the same whatever there is in the others.
-/

namespace UnusedKeys

open Catalog (FlatCatalog)
open SourceScan (TakesPlace)

section Others

variable {disk disk' : Disk} {place : Location} {arguments : UnusedArguments} {project : Project}
  {flat : FlatCatalog} {files : List SourceFile}

theorem filesRead_of_sees (hSees : Sees disk arguments project flat files) :
    ∃ catalog paths, catalogPath project arguments = .ok catalog ∧
      SourceScan.find disk (scanRequest project arguments) = .ok paths ∧
      SourceFile.loadAll disk (rootOf project arguments) paths = .ok files ∧
      Audit.filesRead disk (.unused arguments) = project.file.toList ++ catalog ::
        ((ignoreListPath? project arguments).toList ++ (paths ++
          if isCached project arguments then [cachePathOf project arguments] else [])) := by
  rcases hSees.catalog with ⟨catalog, hCatalog, hFlat⟩
  rcases hSees.sources with ⟨paths, hFind, hLoad⟩
  refine ⟨catalog, paths, hCatalog, hFind, hLoad, ?_⟩
  have hPaths : readInTurn (SourceFile.load disk (rootOf project arguments)) paths = paths :=
    readInTurn_eq_self (exists_of_mapM_eq_ok hLoad)
  simp only [Audit.filesRead, readOnceSettled_of_load hSees.project_eq, filesRead, sourcesRead,
    pathsAfter, hCatalog, hFlat, hFind, hLoad, hPaths]

theorem not_takesPlace_of_not_read (hSound : disk.IsSound) {paths : List Path}
    (hFind : SourceScan.find disk (scanRequest project arguments) = .ok paths)
    (hLoad : SourceFile.loadAll disk (rootOf project arguments) paths = .ok files)
    (hPaths : ∀ path ∈ paths, disk.place? path ≠ some place) :
    ¬TakesPlace disk (scanRequest project arguments) place := by
  intro hTakes
  rcases hTakes with ⟨rootLocation, entries, patterns, file, hRoot, hPatterns, rfl, hFile⟩
  rcases SourceScan.exists_finds hSound hFind with
    ⟨_, _, _, taken, hRoot', hPatterns', _, hTaken, rfl⟩
  cases hRoot.symm.trans hRoot'
  cases hPatterns.symm.trans hPatterns'
  have hMem : SourceScan.pathBelow (scanRequest project arguments).root file ∈
      taken.map (SourceScan.pathBelow (scanRequest project arguments).root) :=
    List.mem_map_of_mem ((hTaken.mem_iff file).mpr hFile)
  rcases exists_of_mapM_eq_ok hLoad _ hMem with ⟨source, hSource⟩
  exact hPaths _ hMem (SourceFile.place?_of_takes hSound hRoot hFile hSource)

/-- A file that is there, but that the audit does not read, may hold anything. -/
theorem searched_of_not_read (h : disk.ChangedAt place disk')
    (hThere : ∃ content, disk.top.at? place = some (.file content))
    (hRead : ∀ path ∈ Audit.filesRead disk (.unused arguments), disk.place? path ≠ some place)
    (hSees : Sees disk arguments project flat files) :
    Sees disk' arguments project flat files ∧
      searched disk' arguments project flat files =
        searched disk arguments project flat files := by
  rcases filesRead_of_sees hSees with ⟨catalog, paths, hCatalog, hFind, hLoad, hAll⟩
  rw [hAll] at hRead
  have hNot := not_takesPlace_of_not_read h.sound hFind hLoad fun path hPath =>
    hRead path (by simp [hPath])
  have hNot' : ¬TakesPlace disk' (scanRequest project arguments) place := fun hTakes =>
    hNot (SourceScan.takesPlace_of_changedAt h hThere hTakes)
  have hIgnored : ∀ path, ignoreListPath? project arguments = some path →
      (disk'.readText path).toOption = (disk.readText path).toOption := fun path hPath =>
    h.readText_eq (hRead path (by simp [hPath]))
  constructor
  · constructor
    case project_eq =>
      have hFile : ∀ path, project.file = some path → disk.place? path ≠ some place :=
        fun path hPath => hRead path (by simp [hPath])
      exact Project.load_of_changedAt h hThere hFile hSees.project_eq
    case catalog =>
      rcases hSees.catalog with ⟨path, hPath, hFlat⟩
      cases hCatalog.symm.trans hPath
      have hText := h.readText_eq (hRead catalog (by simp))
      exact ⟨catalog, hPath, (Catalog.load_congr hText).mpr hFlat⟩
    case sources => exact (SourceScan.sources_iff_of_not_takesPlace h hNot hNot').mpr hSees.sources
  · unfold searched
    rw [keysLeft_congr hIgnored]
    congr 1
    unfold cacheAt
    cases hCached : isCached project arguments with
    | false => rfl
    | true =>
        have hCache := h.readText_eq (hRead (cachePathOf project arguments) (by simp [hCached]))
        exact congrArg some (MatchCache.load_congr hCache)

end Others

end UnusedKeys

namespace TranslationGaps

section Others

variable {disk disk' : Disk} {place : Location} {arguments : UntranslatedArguments}
  {project : Project}

theorem filesRead_of_loadAll {locales : Locale.Locales}
    (hProject : Project.load disk = .ok project)
    (hBase : Settings.checkLocaleCode (baseOf project arguments) = .ok ())
    (hLoad : Locale.loadAll disk (directoryOf project arguments) = .ok locales) :
    ∃ found, Locale.files disk (directoryOf project arguments) = .ok found ∧
      Audit.filesRead disk (.untranslated arguments) =
        project.file.toList ++ found.map (·.path) := by
  rcases bind_eq_ok.mp hLoad with ⟨found, hFound, hLoad⟩
  split at hLoad
  · cases hLoad
  · rcases bind_eq_ok.mp hLoad with ⟨loaded, hLoaded, _⟩
    have hEach : ∀ path ∈ found.map (·.path), ∃ messages,
        Locale.load disk path = .ok messages := by
      intro path hPath
      rcases List.mem_map.mp hPath with ⟨file, hFile, rfl⟩
      rcases exists_of_mapM_eq_ok hLoaded file hFile with ⟨_, hStep⟩
      rcases bind_eq_ok.mp hStep with ⟨messages, hMessages, _⟩
      exact ⟨messages, hMessages⟩
    refine ⟨found, hFound, ?_⟩
    simp only [Audit.filesRead, readOnceSettled_of_load hProject, filesRead, pathsAfter, hBase,
      hFound, readInTurn_eq_self hEach]

theorem loadAll_of_not_read (h : disk.ChangedAt place disk')
    (hThere : ∃ content, disk.top.at? place = some (.file content))
    (hRead : ∀ path ∈ Audit.filesRead disk (.untranslated arguments),
      disk.place? path ≠ some place)
    {locales : Locale.Locales} (hProject : Project.load disk = .ok project)
    (hBase : Settings.checkLocaleCode (baseOf project arguments) = .ok ())
    (hLoad : Locale.loadAll disk (directoryOf project arguments) = .ok locales) :
    Project.load disk' = .ok project ∧
      Locale.loadAll disk' (directoryOf project arguments) = .ok locales := by
  rcases filesRead_of_loadAll hProject hBase hLoad with ⟨found, hFound, hAll⟩
  rw [hAll] at hRead
  constructor
  · have hFile : ∀ path, project.file = some path → disk.place? path ≠ some place :=
      fun path hPath => hRead path (by simp [hPath])
    exact Project.load_of_changedAt h hThere hFile hProject
  · unfold Locale.loadAll at hLoad ⊢
    rw [hFound] at hLoad
    rw [Locale.files_of_changedAt h hThere hFound]
    simp only [bind, Except.bind] at hLoad ⊢
    split at hLoad
    · cases hLoad
    · rename_i hSome
      rw [if_neg hSome]
      rcases bind_eq_ok.mp hLoad with ⟨loaded, hLoaded, hLocales⟩
      refine bind_eq_ok.mpr ⟨loaded, mapM_eq_ok_of_forall ?_ hLoaded, hLocales⟩
      intro file hFile value hStep
      rcases bind_eq_ok.mp hStep with ⟨messages, hMessages, hValue⟩
      have hOther := hRead file.path (List.mem_append_right _ (List.mem_map_of_mem hFile))
      have hMessages' := (Locale.load_eq_ok_congr (h.readText_eq hOther)).mpr hMessages
      exact bind_eq_ok.mpr ⟨messages, hMessages', hValue⟩

end Others

end TranslationGaps

end Audit
end CatalogAudit
