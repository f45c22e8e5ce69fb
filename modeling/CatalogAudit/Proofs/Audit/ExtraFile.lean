import CatalogAudit.Proofs.Audit.Readers
import CatalogAudit.Proofs.Audit.SideBySide
import CatalogAudit.Proofs.Source.Scan

/-!
# One more file

A file that is added makes no difference to an audit if no path on its way asks for the place of the
file and no scan takes it. Of all that is written only the report may be put there.
-/

namespace CatalogAudit

open FileTree (Disk Location Name Node)
open FileTree.Disk (SameChange)

/-!
# Locales
-/

namespace Locale

/-- The paths of the entries of a directory that are called like a locale file. -/
def candidates (disk : Disk) (directory : Path) : List Path :=
  match disk.listDirectory directory with
  | .ok names => (names.filter fun name => (localeOf? name).isSome).map (Path.join directory)
  | .error _ => []

theorem mem_candidates {disk : Disk} {directory : Path} {names : List Name}
    (h : disk.listDirectory directory = .ok names) {name : Name} (hName : name ∈ names)
    {locale : String} (hLocale : localeOf? name = some locale) :
    Path.join directory name ∈ candidates disk directory := by
  unfold candidates
  rw [h]
  apply List.mem_map_of_mem
  exact List.mem_filter.mpr ⟨hName, by rw [hLocale]; rfl⟩

theorem mem_candidates_of_mem_files {disk : Disk} {directory : Path} {found : List LocaleFile}
    (h : files disk directory = .ok found) :
    ∀ file ∈ found, file.path ∈ candidates disk directory := by
  rcases exists_of_files_eq_ok h with ⟨names, hNames, hFound⟩
  intro file hFile
  rcases hFound file hFile with ⟨name, hName, hLocale, hPath⟩
  rw [hPath]
  exact mem_candidates hNames hName hLocale

def fileOf? (disk : Disk) (directory : Path) (name : Name) : Option LocaleFile :=
  if disk.isFile (Path.join directory name) then
    (localeOf? name).map (⟨·, Path.join directory name⟩)
  else none

theorem filterMap_fileOf?_filter (disk : Disk) (directory : Path) {name : Name}
    (hName : localeOf? name = none) (names : List Name) :
    (names.filter (· ≠ name)).filterMap (fileOf? disk directory) =
      names.filterMap (fileOf? disk directory) := by
  rw [List.filterMap_filter]
  apply List.filterMap_congr
  intro other _
  by_cases hOther : other = name
  · subst hOther
    simp [fileOf?, hName]
  · simp [hOther]

theorem files_eq (disk : Disk) (directory : Path) {name : Name}
    (hName : localeOf? name = none) :
    files disk directory =
      (withContext .file (.readLocales directory)
        ((disk.listDirectory directory).map (·.filter (· ≠ name)))).map
          (·.filterMap (fileOf? disk directory)) := by
  unfold files
  cases disk.listDirectory directory with
  | error fault => rfl
  | ok names =>
      exact congrArg Except.ok (filterMap_fileOf?_filter disk directory hName names).symm

section Added

variable {place : Location} {disk disk' : Disk} (h : disk.ChangedAt place disk') {name : Name}
  (hLast : place.getLast? = some name) (hName : localeOf? name = none) {directory : Path}
  (hDirectory : place ∉ disk.asked directory)
  (hCandidates : ∀ path ∈ candidates disk directory, place ∉ disk.asked path)
include h hLast hName hDirectory hCandidates

theorem files_of_unasked : files disk' directory = files disk directory := by
  rw [files_eq disk' directory hName, files_eq disk directory hName,
    h.listDirectory_filter_eq hDirectory hLast]
  cases hNames : disk.listDirectory directory with
  | error fault => rfl
  | ok names =>
      apply congrArg Except.ok
      apply List.filterMap_congr
      intro other hOther
      have hListed := List.mem_of_mem_filter hOther
      unfold fileOf?
      cases hLocale : localeOf? other with
      | none => simp
      | some locale =>
          have hAsked := hCandidates _ (mem_candidates hNames hListed hLocale)
          rw [h.isFile_eq_of_unasked hAsked]

theorem loadAll_of_unasked : loadAll disk' directory = loadAll disk directory := by
  apply loadAll_eq_of_files (files_of_unasked h hLast hName hDirectory hCandidates)
  intro found hFound file hFile
  have hAsked := hCandidates file.path (mem_candidates_of_mem_files hFound file hFile)
  exact load_eq_of_readText (h.readText_eq_of_unasked hAsked)

end Added

end Locale

/-!
# Sources
-/

section Sources

variable {place : Location} {disk disk' : Disk} (h : disk.ChangedAt place disk')
  {request : SourceScan.Request} (hMisses : SourceScan.Misses disk request place)
include h hMisses

theorem SourceScan.find_of_unasked (hRoot : place ∉ disk.asked request.root) :
    find disk' request = find disk request := by
  have hChanged : disk.ChangedIn (· = place) disk' := .of_changedAt h rfl
  have hFind : ∀ {paths}, find disk' request = .ok paths ↔ find disk request = .ok paths :=
    find_iff_of_changedAt h hMisses.not_takesPlace
      ((misses_iff_of_changedIn hChanged).mpr hMisses).not_takesPlace
  cases hResult : find disk request with
  | ok paths => exact hFind.mpr hResult
  | error fault =>
      have hSame := h.sameAnswer_locate hRoot
      generalize hLocate : disk.locate true request.root = result at hSame
      generalize hLocate' : disk'.locate true request.root = result' at hSame
      cases hSame with
      | error fault' =>
          unfold find Disk.resolve at hResult ⊢
          rw [hLocate] at hResult
          rw [hLocate']
          exact hResult
      | absent inside free =>
          unfold find Disk.resolve at hResult ⊢
          rw [hLocate] at hResult
          rw [hLocate']
          exact hResult
      | file location content =>
          unfold find Disk.resolve at hResult ⊢
          rw [hLocate] at hResult
          rw [hLocate']
          exact hResult
      | directory location entries entries' =>
          have hDirectories := directoriesAmong_eq_of_changedAt h (Disk.isIn_of_locate hLocate)
            (Disk.isIn_of_locate hLocate')
          rw [find_eq_error_iff (Disk.resolve_eq_ok.mpr hLocate)] at hResult
          rw [find_eq_error_iff (Disk.resolve_eq_ok.mpr hLocate'), hDirectories]
          exact hResult

theorem SourceFile.loadAll_of_missed {paths : List Path}
    (hFind : SourceScan.find disk request = .ok paths) :
    loadAll disk' request.root paths = loadAll disk request.root paths := by
  rcases SourceScan.exists_finds h.sound hFind with
    ⟨rootLocation, entries, patterns, files, hRoot, hPatterns, _, hFiles, rfl⟩
  rcases h.exists_directory hRoot with ⟨inner, hRoot'⟩
  apply mapM_eq_of_forall
  intro path hPath
  rcases List.mem_map.mp hPath with ⟨file, hFile, rfl⟩
  have hTakes := (hFiles.mem_iff file).mp hFile
  have hNames := SourceScan.isFileName_of_isFile h.sound hTakes.isFile
  have hOther : rootLocation ++ file ≠ place := fun hEq => hMisses.not_takesPlace
    ⟨rootLocation, entries, patterns, file, hRoot, hPatterns, hEq, hTakes⟩
  rcases hTakes.isFile with ⟨content, hContent⟩
  have hContent' := (h.at?_eq_file hOther).mpr hContent
  have hRead : disk'.readBytes (SourceScan.pathBelow request.root file) =
      disk.readBytes (SourceScan.pathBelow request.root file) := by
    unfold Disk.readBytes Disk.resolve
    cases hCheck : Disk.checkPath (SourceScan.pathBelow request.root file) with
    | error fault =>
        unfold Disk.locate
        rw [hCheck]
        rfl
    | ok _ =>
        rw [Disk.locate_pathBelow hRoot hTakes.covers.ne_nil hNames hCheck hContent,
          Disk.locate_pathBelow hRoot' hTakes.covers.ne_nil hNames hCheck hContent']
  exact load_eq_of_readBytes hRead request.root

end Sources

namespace Audit

open CommandLine (Command UnusedArguments UntranslatedArguments)
open FileTree (IsFileName)
open Utf8 (Bytes)

/-!
# Two disks that go on side by side
-/

/-- Both disks have come from `start`, the first without the extra file and the second with it. -/
structure HasExtra (start : Disk) (place : Location) (content : Bytes) (disk disk' : Disk) :
    Prop where
  changed : disk.ChangedAt place disk'
  kept : disk'.top.at? place = (disk.top.at? place).or (some (.file content))
  asked : ∀ path, disk.asked path = start.asked path
  places : ∀ path, disk.place? path = start.place? path
  canonicalPlaces : ∀ path, disk.canonicalPlace? path = start.canonicalPlace? path

namespace HasExtra

variable {start disk disk' : Disk} {place : Location} {content : Bytes}
  (h : HasExtra start place content disk disk')
include h

theorem put {directory : Location} {name : Name} (written : Bytes)
    (hDirectory : disk.top.IsDirectoryAt directory) (hName : IsFileName name)
    (hFree : disk.top.IsFilePlace (directory ++ [name])) :
    HasExtra start place content
      { disk with top := disk.top.put directory name (.file written) }
      { disk' with top := disk'.top.put directory name (.file written) } := by
  have hFree' := FileTree.isFilePlace_of_agreeBeside h.changed.agree hFree
  have hPut := Disk.changedAt_put h.changed.sound hDirectory hName hFree written
  constructor
  case changed => exact h.changed.put hDirectory hName hFree written
  case kept =>
    by_cases hNew : place = directory ++ [name]
    · rcases hDirectory with ⟨entries, hEntries⟩
      rcases FileTree.directory_of_agreeBeside h.changed.agree hEntries with ⟨inner, hInner⟩
      rw [hNew, Node.at?_put_self hInner, Node.at?_put_self hEntries]
      rfl
    · rw [Node.at?_put_of_isFilePlace hFree' written h.changed.agree.after hNew,
        Node.at?_put_of_isFilePlace hFree written h.changed.agree.before hNew]
      exact h.kept
  case asked => exact fun path => (hPut.asked_eq path).trans (h.asked path)
  case places => exact fun path => (hPut.place?_eq path).trans (h.places path)
  case canonicalPlaces =>
    exact fun path => (hPut.canonicalPlace?_eq path).trans (h.canonicalPlaces path)

theorem sameChange_write {path : Path}
    (hPath : place ∉ start.asked path ∨ start.place? path = some place) (written : Bytes) :
    SameChange (HasExtra start place content) (disk.write path written)
      (disk'.write path written) := by
  rcases hPath with hUnasked | hThere
  · rw [← h.asked] at hUnasked
    exact h.changed.sameChange_of_unasked (fun _ _ => h.put written) hUnasked
  · rw [← h.places] at hThere
    exact h.changed.sameChange_of_place? (fun _ _ => h.put written) hThere

theorem misses {request : SourceScan.Request} (hMisses : SourceScan.Misses start request place) :
    SourceScan.Misses disk request place := by
  unfold SourceScan.Misses
  simp only [h.places, h.canonicalPlaces]
  exact hMisses

end HasExtra

/-!
# Audits that leave the place alone
-/

/-- The paths that an audit of unused keys follows to read, apart from those of the sources. -/
def UnusedKeys.pathsRead (project : Project) (arguments : UnusedArguments) : List Path :=
  rootOf project arguments :: (catalogPath project arguments).toOption.toList ++
    (ignoreListPath? project arguments).toList ++
    if isCached project arguments then [cachePathOf project arguments] else []

def TranslationGaps.pathsRead (disk : Disk) (project : Project)
    (arguments : UntranslatedArguments) : List Path :=
  directoryOf project arguments :: Locale.candidates disk (directoryOf project arguments)

def pathsRead (disk : Disk) (project : Project) : Command → List Path
  | .unused arguments => UnusedKeys.pathsRead project arguments
  | .untranslated arguments => TranslationGaps.pathsRead disk project arguments
  | .init => []

def reportPath? (project : Project) : Command → Option Path
  | .unused arguments => some (UnusedKeys.outputOf project arguments)
  | .untranslated arguments => some (TranslationGaps.outputOf project arguments)
  | .init => none

/-- On its way to what it reads and writes the command asks for nothing at this place. -/
structure LeavesAlone (disk : Disk) (project : Project) (command : Command) (place : Location) :
    Prop where
  read : ∀ path ∈ pathsRead disk project command, place ∉ disk.asked path
  report : ∀ path ∈ reportPath? project command,
    place ∉ disk.asked path ∨ disk.place? path = some place

instance (disk : Disk) (project : Project) (command : Command) (place : Location) :
    Decidable (LeavesAlone disk project command place) :=
  decidable_of_iff
    ((∀ path ∈ pathsRead disk project command, place ∉ disk.asked path) ∧
      ∀ path ∈ reportPath? project command,
        place ∉ disk.asked path ∨ disk.place? path = some place)
    ⟨fun h => ⟨h.1, h.2⟩, fun h => ⟨h.read, h.report⟩⟩

section Alone

variable {start : Disk} {place : Location} {content : Bytes} {project : Project}

theorem UnusedKeys.seesSame_of_leavesAlone {arguments : UnusedArguments}
    (h : LeavesAlone start project (.unused arguments) place)
    (hMisses : SourceScan.Misses start (scanRequest project arguments) place) :
    SeesSame (HasExtra start place content) project arguments := by
  have hRead : ∀ path ∈ pathsRead project arguments, place ∉ start.asked path := h.read
  constructor
  case catalog =>
    intro disk disk' hExtra path hPath
    apply Catalog.load_eq_of_readText
    apply hExtra.changed.readText_eq_of_unasked
    rw [hExtra.asked]
    exact hRead path (by simp [pathsRead, hPath, Except.toOption])
  case ignoreList =>
    intro disk disk' hExtra path hPath
    apply IgnoreList.read_eq_of_readText
    apply hExtra.changed.readText_eq_of_unasked
    rw [hExtra.asked]
    exact hRead path (by simp [pathsRead, hPath])
  -- The scan does come to the file, but does not take it, so what it finds is the same.
  case found =>
    intro disk disk' hExtra
    apply SourceScan.find_of_unasked hExtra.changed (hExtra.misses hMisses)
    rw [hExtra.asked]
    exact hRead _ (by simp [pathsRead, scanRequest])
  case sources =>
    intro disk disk' hExtra paths hFind
    exact SourceFile.loadAll_of_missed hExtra.changed (hExtra.misses hMisses) hFind
  case records =>
    intro disk disk' hExtra hCached
    apply MatchCache.readRecords_eq_of_readText
    apply hExtra.changed.readText_eq_of_unasked
    rw [hExtra.asked]
    exact hRead _ (by simp [pathsRead, hCached])
  case save =>
    intro disk disk' hExtra hCached cache hPath
    unfold MatchCache.save
    apply SameChange.withContext
    apply hExtra.sameChange_write
    rw [hPath]
    exact Or.inl (hRead _ (by simp [pathsRead, hCached]))
  case report =>
    intro disk disk' hExtra text
    apply SameChange.withContext
    exact hExtra.sameChange_write (h.report _ rfl) _

/-- With one more file the command goes as without it, and the file stays if it is not replaced. -/
theorem sameOutcome_of_leavesAlone (time : String) {disk : Disk} {command : Command}
    (hExtra : HasExtra start place content start disk)
    (hProject : SameProject (Project.load start) (Project.load disk))
    (hCommand : command ≠ .init) {name : Name} (hLast : place.getLast? = some name)
    (hName : Locale.localeOf? name = none)
    (hAlone : ∀ project, Project.load start = .ok project →
      LeavesAlone start project command place)
    (hMisses : ∀ project, Project.load start = .ok project →
      ∀ arguments, SourceScan.Misses start (UnusedKeys.scanRequest project arguments) place) :
    SameOutcome (HasExtra start place content) (run time start command)
      (run time disk command) := by
  apply sameOutcome_run
  cases command with
  | unused arguments =>
      apply Work.Parallels.map
      apply UnusedKeys.parallels_audit
      case h => exact ⟨rfl, hExtra⟩
      case hProject => exact hProject
      case hSame =>
        intro project hLoad
        exact UnusedKeys.seesSame_of_leavesAlone (hAlone project hLoad)
          (hMisses project hLoad arguments)
  | untranslated arguments =>
      apply Work.Parallels.map
      apply TranslationGaps.parallels_audit
      case h => exact ⟨rfl, hExtra⟩
      case hProject => exact hProject
      case hLocales =>
        intro project hLoad
        have hRead := (hAlone project hLoad).read
        exact Locale.loadAll_of_unasked hExtra.changed hLast hName
          (hRead _ (List.mem_cons_self ..))
          fun path hPath => hRead path (List.mem_cons_of_mem _ hPath)
      case hReport =>
        intro project hLoad disk disk' hExtra text
        apply SameChange.withContext
        exact hExtra.sameChange_write ((hAlone project hLoad).report _ rfl) _
  | init => exact absurd rfl hCommand

end Alone

end Audit
end CatalogAudit
