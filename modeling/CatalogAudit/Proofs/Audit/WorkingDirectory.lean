import CatalogAudit.Proofs.Audit.AbsolutePaths
import CatalogAudit.Proofs.Audit.FilesRead
import CatalogAudit.Proofs.Audit.SideBySide

/-!
# Inside a project

From every directory of a project the settings file is found at the same place, and paths in the
settings are seen from there. So an audit goes the same way from all of them, as long as the paths
that it is given are absolute.
-/

namespace CatalogAudit
namespace Audit

open CommandLine (Command UnusedArguments UntranslatedArguments)
open FileTree (Disk IsFileName Location pathTo)
open FileTree.Disk (SameChange)

/-!
# The same tree
-/

/-- The other disk is the same tree, seen from the other working directory. -/
def IsMoved (cwd : Location) (disk disk' : Disk) : Prop :=
  disk' = disk.movedTo cwd

theorem sameChange_of_map {cwd : Location} {result result' : Except Fault Disk}
    (h : result' = result.map fun changed => changed.movedTo cwd) :
    SameChange (IsMoved cwd) result result' := by
  subst h
  cases result with
  | error fault => exact .error fault
  | ok changed => exact .ok rfl

/-!
# Directories with the same project
-/

/-- From both working directories the same settings are found, and their paths become absolute. -/
structure SharesProject (disk : Disk) (cwd : Location) : Prop where
  isDirectory : disk.top.IsDirectoryAt disk.cwd
  isDirectory' : disk.top.IsDirectoryAt cwd
  file : Settings.find? (disk.movedTo cwd) (disk.movedTo cwd).cwdPath =
    Settings.find? disk disk.cwdPath
  load : Project.load (disk.movedTo cwd) = Project.load disk
  fileAbsolute : ∀ path, Settings.find? disk disk.cwdPath = some path →
    Path.isAbsolute path = true
  directoryAbsolute : ∀ project, Project.load disk = .ok project →
    Path.isAbsolute project.directory = true

theorem SharesProject.sameProject {disk : Disk} {cwd : Location} (h : SharesProject disk cwd) :
    SameProject (Project.load disk) (Project.load (disk.movedTo cwd)) := by
  rw [h.load]
  exact .refl _

theorem SharesProject.symm {disk : Disk} {cwd : Location} (h : SharesProject disk cwd) :
    SharesProject (disk.movedTo cwd) disk.cwd where
  isDirectory := h.isDirectory'
  isDirectory' := h.isDirectory
  file := h.file.symm
  load := h.load.symm
  fileAbsolute path hPath := h.fileAbsolute path (h.file.symm.trans hPath)
  directoryAbsolute project hProject := h.directoryAbsolute project (h.load.symm.trans hProject)

def givenPaths : Command → List Path
  | .unused arguments =>
      arguments.path.toList ++ arguments.localePath.toList ++ arguments.output.toList ++
        arguments.ignore.toList
  | .untranslated arguments => arguments.path.toList ++ arguments.output.toList
  | .init => []

/-!
# Audits from two directories
-/

section Audits

open Work

variable {time : String} {disk : Disk} {cwd : Location} {project : Project}

namespace UnusedKeys

variable {arguments : UnusedArguments}

section Paths

variable (hGiven : ∀ path ∈ givenPaths (.unused arguments), Path.isAbsolute path = true)
  (hProject : Path.isAbsolute project.directory = true)
include hGiven hProject

theorem isAbsolute_rootOf : Path.isAbsolute (rootOf project arguments) = true := by
  apply Project.isAbsolute_pathOr hProject
  intro path hPath
  exact hGiven path (by simp [givenPaths, Option.mem_def.mp hPath])

theorem isAbsolute_outputOf : Path.isAbsolute (outputOf project arguments) = true := by
  apply Project.isAbsolute_pathOr hProject
  intro path hPath
  exact hGiven path (by simp [givenPaths, Option.mem_def.mp hPath])

theorem isAbsolute_cachePathOf : Path.isAbsolute (cachePathOf project arguments) = true :=
  Path.isAbsolute_join_of_isAbsolute (isAbsolute_rootOf hGiven hProject) MatchCache.fileName

theorem isAbsolute_catalogPath {path : Path}
    (h : catalogPath project arguments = .ok path) : Path.isAbsolute path = true := by
  unfold catalogPath at h
  split at h
  · rename_i given hPath
    cases h
    exact hGiven path (by simp [givenPaths, hPath])
  · cases h
    exact Project.isAbsolute_resolve hProject _
  · cases h

theorem isAbsolute_ignoreListPath? {path : Path}
    (h : ignoreListPath? project arguments = some path) : Path.isAbsolute path = true := by
  unfold ignoreListPath? at h
  cases hIgnore : arguments.ignore with
  | some given =>
      rw [hIgnore] at h
      cases h
      exact hGiven path (by simp [givenPaths, hIgnore])
  | none =>
      rw [hIgnore] at h
      rcases Option.map_eq_some_iff.mp h with ⟨inside, _, rfl⟩
      exact Project.isAbsolute_resolve hProject inside

end Paths

theorem seesSame_movedTo
    (hGiven : ∀ path ∈ givenPaths (.unused arguments), Path.isAbsolute path = true)
    (hProject : Path.isAbsolute project.directory = true) :
    SeesSame (IsMoved cwd) project arguments := by
  have hRoot := isAbsolute_rootOf hGiven hProject
  have hOutput := isAbsolute_outputOf hGiven hProject
  have hCache := isAbsolute_cachePathOf hGiven hProject
  constructor
  case catalog =>
    rintro disk _ rfl path hPath
    have hAbsolute := isAbsolute_catalogPath hGiven hProject hPath
    exact Catalog.load_eq_of_readText (Disk.readText_movedTo hAbsolute disk cwd)
  case ignoreList =>
    rintro disk _ rfl path hPath
    have hAbsolute := isAbsolute_ignoreListPath? hGiven hProject hPath
    exact IgnoreList.read_eq_of_readText (Disk.readText_movedTo hAbsolute disk cwd)
  case found =>
    rintro disk _ rfl
    refine SourceScan.find_movedTo ?_ ?_ disk cwd
    · exact hRoot
    · intro path hPath
      rcases List.mem_pair.mp hPath with rfl | rfl
      · exact hCache
      · exact hOutput
  case sources =>
    rintro disk _ rfl paths hFind
    have hPaths := SourceScan.isAbsolute_of_mem_find hFind hRoot
    exact SourceFile.loadAll_movedTo hPaths _ disk cwd
  case records =>
    rintro disk _ rfl _
    exact MatchCache.readRecords_eq_of_readText (Disk.readText_movedTo hCache disk cwd)
  case save =>
    rintro disk _ rfl _ cache hPath
    exact sameChange_of_map (MatchCache.save_movedTo hCache disk cwd hPath)
  case report =>
    rintro disk _ rfl text
    exact sameChange_of_map (Report.write_movedTo hOutput disk cwd text)

theorem parallels_audit_movedTo (h : SharesProject disk cwd)
    (hGiven : ∀ path ∈ givenPaths (.unused arguments), Path.isAbsolute path = true) :
    Parallels (IsMoved cwd) (audit time arguments) ⟨disk, []⟩ ⟨disk.movedTo cwd, []⟩ :=
  parallels_audit ⟨rfl, rfl⟩ h.sameProject fun project hLoad =>
    seesSame_movedTo hGiven (h.directoryAbsolute project hLoad)

end UnusedKeys

namespace TranslationGaps

variable {arguments : UntranslatedArguments}

section Paths

variable (hGiven : ∀ path ∈ givenPaths (.untranslated arguments), Path.isAbsolute path = true)
  (hProject : Path.isAbsolute project.directory = true)
include hGiven hProject

theorem isAbsolute_directoryOf : Path.isAbsolute (directoryOf project arguments) = true := by
  apply Project.isAbsolute_pathOr hProject
  intro path hPath
  exact hGiven path (by simp [givenPaths, Option.mem_def.mp hPath])

theorem isAbsolute_outputOf : Path.isAbsolute (outputOf project arguments) = true := by
  apply Project.isAbsolute_pathOr hProject
  intro path hPath
  exact hGiven path (by simp [givenPaths, Option.mem_def.mp hPath])

end Paths

theorem parallels_audit_movedTo (h : SharesProject disk cwd)
    (hGiven : ∀ path ∈ givenPaths (.untranslated arguments), Path.isAbsolute path = true) :
    Parallels (IsMoved cwd) (audit time arguments) ⟨disk, []⟩ ⟨disk.movedTo cwd, []⟩ := by
  apply parallels_audit
  case h => exact ⟨rfl, rfl⟩
  case hProject => exact h.sameProject
  case hLocales =>
    intro project hLoad
    exact Locale.loadAll_movedTo
      (isAbsolute_directoryOf hGiven (h.directoryAbsolute project hLoad)) disk cwd
  case hReport =>
    rintro project hLoad disk _ rfl text
    exact sameChange_of_map (Report.write_movedTo
      (isAbsolute_outputOf hGiven (h.directoryAbsolute project hLoad)) disk cwd text)

end TranslationGaps

end Audits

/-!
# Runs from two directories
-/

def Outcome.movedTo (outcome : Outcome) (cwd : Location) : Outcome :=
  { outcome with disk := outcome.disk.movedTo cwd }

theorem run_movedTo (time : String) {disk : Disk} {cwd : Location} {command : Command}
    (h : SharesProject disk cwd) (hCommand : command ≠ .init)
    (hGiven : ∀ path ∈ givenPaths command, Path.isAbsolute path = true) :
    run time (disk.movedTo cwd) command = (run time disk command).movedTo cwd := by
  have hSame : SameOutcome (IsMoved cwd) (run time disk command)
      (run time (disk.movedTo cwd) command) := by
    apply sameOutcome_run
    cases command with
    | unused arguments => exact (UnusedKeys.parallels_audit_movedTo h hGiven).map _
    | untranslated arguments => exact (TranslationGaps.parallels_audit_movedTo h hGiven).map _
    | init => exact absurd rfl hCommand
  rcases hSame with ⟨hNotes, hResult, hStatus, hDisk⟩
  unfold Outcome.movedTo
  rw [← hNotes, ← hResult, ← hStatus, ← hDisk]

/-!
# Files read from two directories
-/

theorem pathsAfter_congr {result : Except Fault α} {next next' : α → List Path}
    (h : ∀ value, result = .ok value → next' value = next value) :
    pathsAfter result next' = pathsAfter result next := by
  cases result with
  | ok value => exact h value rfl
  | error fault => rfl

theorem readInTurn_congr {load load' : Path → Except Fault α} {paths : List Path}
    (h : ∀ path ∈ paths, load' path = load path) :
    readInTurn load' paths = readInTurn load paths := by
  induction paths with
  | nil => rfl
  | cons first behind ih =>
      have hBehind := ih fun path hPath => h path (List.mem_cons_of_mem first hPath)
      unfold readInTurn
      rw [h first (List.mem_cons_self ..), hBehind]

section Moved

variable {disk : Disk} {cwd : Location} {project : Project}
  (hProject : Path.isAbsolute project.directory = true)
include hProject

theorem UnusedKeys.isAbsolute_excluded {arguments : UnusedArguments}
    (hGiven : ∀ path ∈ givenPaths (.unused arguments), Path.isAbsolute path = true) :
    ∀ path ∈ (scanRequest project arguments).excluded, Path.isAbsolute path = true := by
  intro path hPath
  rcases List.mem_pair.mp hPath with rfl | rfl
  · exact isAbsolute_cachePathOf hGiven hProject
  · exact isAbsolute_outputOf hGiven hProject

theorem UnusedKeys.filesRead_movedTo {arguments : UnusedArguments}
    (hGiven : ∀ path ∈ givenPaths (.unused arguments), Path.isAbsolute path = true) :
    filesRead (disk.movedTo cwd) project arguments = filesRead disk project arguments := by
  have hRoot : Path.isAbsolute (scanRequest project arguments).root = true :=
    isAbsolute_rootOf hGiven hProject
  have hSources : sourcesRead (disk.movedTo cwd) project arguments =
      sourcesRead disk project arguments := by
    unfold sourcesRead
    rw [SourceScan.find_movedTo hRoot (isAbsolute_excluded hProject hGiven)]
    apply pathsAfter_congr
    intro paths hFind
    have hPaths := SourceScan.isAbsolute_of_mem_find hFind hRoot
    rw [SourceFile.loadAll_movedTo hPaths, readInTurn_congr fun path hPath =>
      SourceFile.load_eq_of_readBytes (Disk.readBytes_movedTo (hPaths path hPath) disk cwd) _]
  unfold filesRead
  apply pathsAfter_congr
  intro catalog hCatalog
  have hAbsolute := isAbsolute_catalogPath hGiven hProject hCatalog
  rw [Catalog.load_eq_of_readText (Disk.readText_movedTo hAbsolute disk cwd), hSources]

theorem UnusedKeys.isAbsolute_of_mem_filesRead {arguments : UnusedArguments}
    (hGiven : ∀ path ∈ givenPaths (.unused arguments), Path.isAbsolute path = true) :
    ∀ path ∈ filesRead disk project arguments, Path.isAbsolute path = true := by
  have hRoot := isAbsolute_rootOf hGiven hProject
  intro path hPath
  rcases mem_pathsAfter.mp hPath with ⟨catalog, hCatalog, hPath⟩
  rcases List.mem_cons.mp hPath with rfl | hPath
  · exact isAbsolute_catalogPath hGiven hProject hCatalog
  rcases mem_pathsAfter.mp hPath with ⟨_, _, hPath⟩
  rcases List.mem_append.mp hPath with hIgnored | hPath
  · exact isAbsolute_ignoreListPath? hGiven hProject (Option.mem_toList.mp hIgnored)
  rcases mem_pathsAfter.mp hPath with ⟨paths, hFind, hPath⟩
  rcases List.mem_append.mp hPath with hSource | hPath
  · exact SourceScan.isAbsolute_of_mem_find hFind hRoot path (mem_of_mem_readInTurn hSource)
  rcases mem_pathsAfter.mp hPath with ⟨_, _, hPath⟩
  split at hPath
  · cases List.mem_singleton.mp hPath
    exact isAbsolute_cachePathOf hGiven hProject
  · cases hPath

theorem TranslationGaps.filesRead_movedTo {arguments : UntranslatedArguments}
    (hGiven : ∀ path ∈ givenPaths (.untranslated arguments), Path.isAbsolute path = true) :
    filesRead (disk.movedTo cwd) project arguments = filesRead disk project arguments := by
  have hDirectory := isAbsolute_directoryOf hGiven hProject
  unfold filesRead
  rw [Locale.files_movedTo hDirectory]
  refine pathsAfter_congr fun _ _ => pathsAfter_congr fun found hFound => ?_
  apply readInTurn_congr
  intro path hPath
  rcases List.mem_map.mp hPath with ⟨file, hFile, rfl⟩
  have hPath := Locale.isAbsolute_of_mem_files hDirectory disk hFound file hFile
  exact Locale.load_eq_of_readText (Disk.readText_movedTo hPath disk cwd)

theorem TranslationGaps.isAbsolute_of_mem_filesRead {arguments : UntranslatedArguments}
    (hGiven : ∀ path ∈ givenPaths (.untranslated arguments), Path.isAbsolute path = true) :
    ∀ path ∈ filesRead disk project arguments, Path.isAbsolute path = true := by
  have hDirectory := isAbsolute_directoryOf hGiven hProject
  intro path hPath
  rcases mem_pathsAfter.mp hPath with ⟨_, _, hPath⟩
  rcases mem_pathsAfter.mp hPath with ⟨found, hFound, hPath⟩
  rcases List.mem_map.mp (mem_of_mem_readInTurn hPath) with ⟨file, hFile, rfl⟩
  exact Locale.isAbsolute_of_mem_files hDirectory disk hFound file hFile

end Moved

namespace SharesProject

variable {disk : Disk} {cwd : Location} (h : SharesProject disk cwd)
include h

theorem readOnceSettled_movedTo {next next' : Project → List Path}
    (hNext : ∀ project, Path.isAbsolute project.directory = true →
      next' project = next project) :
    readOnceSettled (disk.movedTo cwd) next' = readOnceSettled disk next := by
  have hMoved : (disk.movedTo cwd).top.IsDirectoryAt (disk.movedTo cwd).cwd := h.isDirectory'
  rw [readOnceSettled_of_isDirectoryAt h.isDirectory, readOnceSettled_of_isDirectoryAt hMoved,
    h.file, h.load]
  rw [pathsAfter_congr fun project hLoad => hNext project (h.directoryAbsolute project hLoad)]

theorem isAbsolute_of_mem_readOnceSettled {next : Project → List Path}
    (hNext : ∀ project, Path.isAbsolute project.directory = true →
      ∀ path ∈ next project, Path.isAbsolute path = true) :
    ∀ path ∈ readOnceSettled disk next, Path.isAbsolute path = true := by
  intro path hPath
  rw [readOnceSettled_of_isDirectoryAt h.isDirectory] at hPath
  rcases List.mem_append.mp hPath with hFile | hPath
  · exact h.fileAbsolute path (Option.mem_toList.mp hFile)
  · rcases mem_pathsAfter.mp hPath with ⟨project, hLoad, hPath⟩
    exact hNext project (h.directoryAbsolute project hLoad) path hPath

variable {command : Command}
  (hGiven : ∀ path ∈ givenPaths command, Path.isAbsolute path = true)
include hGiven

theorem filesRead_movedTo : filesRead (disk.movedTo cwd) command = filesRead disk command := by
  cases command with
  | unused arguments =>
      exact h.readOnceSettled_movedTo fun _ hProject =>
        UnusedKeys.filesRead_movedTo hProject hGiven
  | untranslated arguments =>
      exact h.readOnceSettled_movedTo fun _ hProject =>
        TranslationGaps.filesRead_movedTo hProject hGiven
  | init => rfl

theorem isAbsolute_of_mem_filesRead :
    ∀ path ∈ filesRead disk command, Path.isAbsolute path = true := by
  cases command with
  | unused arguments =>
      exact h.isAbsolute_of_mem_readOnceSettled fun _ hProject =>
        UnusedKeys.isAbsolute_of_mem_filesRead hProject hGiven
  | untranslated arguments =>
      exact h.isAbsolute_of_mem_readOnceSettled fun _ hProject =>
        TranslationGaps.isAbsolute_of_mem_filesRead hProject hGiven
  | init => exact fun _ hPath => by cases hPath

end SharesProject

end Audit
end CatalogAudit
