import CatalogAudit.Audit.Reach
import CatalogAudit.Proofs.Audit.Readers
import CatalogAudit.Proofs.Audit.UnusedKeys
import CatalogAudit.Proofs.Source.Scan

/-!
# Files that an audit does not read

When files change that an audit of unused keys neither reads nor scans, it sees the same as before.
The search for the settings asks whether some entries are there, so none of these may come to be.
-/

namespace CatalogAudit

open FileTree (Disk Location)

/-!
# Settings, catalogs, and ignore lists
-/

namespace Settings

theorem findIn_congr {disk disk' : Disk} {directories : List Path}
    (h : ∀ directory ∈ directories, ∀ name ∈ [fileName, repositoryMark],
      disk'.exists? (Path.join directory name) = disk.exists? (Path.join directory name)) :
    findIn disk' directories = findIn disk directories := by
  induction directories with
  | nil => rfl
  | cons directory above ih =>
      have hHere := h directory (List.mem_cons_self ..)
      have hAbove := ih fun other hOther => h other (List.mem_cons_of_mem directory hOther)
      unfold findIn
      rw [hHere fileName (by simp), hHere repositoryMark (by simp), hAbove]

theorem find?_congr {disk disk' : Disk} {start : Path}
    (h : ∀ asked ∈ Audit.settingsPlaces start,
      disk'.exists? asked.path = disk.exists? asked.path) :
    find? disk' start = find? disk start := by
  apply findIn_congr
  intro directory hDirectory name hName
  refine h ⟨Path.join directory name, .entry⟩ (List.mem_flatMap.mpr ⟨directory, hDirectory, ?_⟩)
  rcases List.mem_pair.mp hName with rfl | rfl
  · simp [Audit.entries]
  · simp [Audit.entries]

/-- The entry at which the search ends: a settings file, or the top of a repository. -/
def stopIn (disk : Disk) : List Path → Option Path
  | [] => none
  | directory :: above =>
      if disk.exists? (Path.join directory fileName) then some (Path.join directory fileName)
      else if disk.exists? (Path.join directory repositoryMark) then
        some (Path.join directory repositoryMark)
      else stopIn disk above

def stop? (disk : Disk) (start : Path) : Option Path :=
  stopIn disk (Path.ancestors start)

theorem stopIn_of_findIn {disk : Disk} {directories : List Path} {path : Path}
    (h : findIn disk directories = some path) : stopIn disk directories = some path := by
  induction directories with
  | nil => cases h
  | cons directory above ih =>
      unfold findIn at h
      unfold stopIn
      by_cases hFile : disk.exists? (Path.join directory fileName) = true
      · rw [if_pos hFile] at h ⊢
        exact h
      · rw [if_neg hFile] at h ⊢
        by_cases hMark : disk.exists? (Path.join directory repositoryMark) = true
        · rw [if_pos hMark] at h
          cases h
        · rw [if_neg hMark] at h ⊢
          exact ih h

/-- A search that ends elsewhere than at a file goes the same way without the file. -/
theorem findIn_of_changedAt {place : Location} {disk disk' : Disk}
    (h : disk.ChangedAt place disk') {directories : List Path}
    (hStop : ∀ path, stopIn disk' directories = some path → disk'.place? path ≠ some place) :
    findIn disk' directories = findIn disk directories := by
  induction directories with
  | nil => rfl
  | cons directory above ih =>
      unfold stopIn at hStop
      unfold findIn
      by_cases hFile : disk'.exists? (Path.join directory fileName) = true
      · rw [if_pos hFile] at hStop
        have hSame := h.exists?_eq_of_exists? fun _ => hStop _ rfl
        rw [← hSame, if_pos hFile, if_pos hFile]
      · rw [if_neg hFile] at hStop
        have hSame := h.exists?_eq_of_exists? fun hThere => absurd hThere hFile
        rw [← hSame, if_neg hFile, if_neg hFile]
        by_cases hMark : disk'.exists? (Path.join directory repositoryMark) = true
        · rw [if_pos hMark] at hStop
          have hSameMark := h.exists?_eq_of_exists? fun _ => hStop _ rfl
          rw [← hSameMark, if_pos hMark, if_pos hMark]
        · rw [if_neg hMark] at hStop
          have hSameMark := h.exists?_eq_of_exists? fun hThere => absurd hThere hMark
          rw [← hSameMark, if_neg hMark, if_neg hMark]
          exact ih hStop

end Settings

theorem Project.loadFrom_iff_of_changedAt {place : Location} {disk disk' : Disk}
    (h : disk.ChangedAt place disk') {start : Path}
    (hStop : ∀ path, Settings.stop? disk' start = some path → disk'.place? path ≠ some place)
    {project : Project} :
    loadFrom disk' start = .ok project ↔ loadFrom disk start = .ok project := by
  have hFind : Settings.find? disk' start = Settings.find? disk start :=
    Settings.findIn_of_changedAt h hStop
  unfold loadFrom
  rw [hFind]
  cases hFound : Settings.find? disk start with
  | none => exact Iff.rfl
  | some path =>
      have hOther := hStop path (Settings.stopIn_of_findIn (hFind.trans hFound))
      rw [h.place?_eq] at hOther
      rw [bind_eq_ok, bind_eq_ok]
      apply exists_congr
      intro settings
      exact and_congr_left fun _ => bind_withContext_congr (h.readText_eq hOther)

theorem Project.load_iff_of_changedAt {place : Location} {disk disk' : Disk}
    (h : disk.ChangedAt place disk')
    (hStop : ∀ path, Settings.stop? disk' disk.cwdPath = some path →
      disk'.place? path ≠ some place)
    {project : Project} : load disk' = .ok project ↔ load disk = .ok project := by
  have hCwd : disk'.cwdPath = disk.cwdPath := congrArg FileTree.pathTo h.cwd
  rw [load_eq_ok, load_eq_ok, h.isDirectoryAt_iff, h.cwd, hCwd]
  exact and_congr_right fun _ => loadFrom_iff_of_changedAt h hStop

theorem Catalog.load_congr {disk disk' : Disk} {path : Path}
    (h : (disk'.readText path).toOption = (disk.readText path).toOption) {flat : FlatCatalog} :
    load disk' path = .ok flat ↔ load disk path = .ok flat :=
  bind_withContext_congr h

theorem IgnoreList.read_congr {disk disk' : Disk} {path : Path}
    (h : (disk'.readText path).toOption = (disk.readText path).toOption) :
    (read disk' path).toOption = (read disk path).toOption := by
  apply Option.ext
  intro prefixes
  rw [toOption_eq_some, toOption_eq_some]
  exact bind_withContext_congr h

section Changed

variable {places : Location → Prop} {disk disk' : Disk}

theorem Project.loadFrom_of_changedIn (h : disk.ChangedIn places disk') {start : Path}
    (hAsked : ∀ asked ∈ Audit.settingsPlaces start, ∀ place,
      disk.place? asked.path = some place → places place → disk.exists? asked.path = true)
    {project : Project}
    (hFile : ∀ path, project.file = some path → ∀ place, disk.place? path = some place →
      ¬places place)
    (hLoad : loadFrom disk start = .ok project) : loadFrom disk' start = .ok project := by
  have hFind : Settings.find? disk' start = Settings.find? disk start :=
    Settings.find?_congr fun asked hMem => h.exists?_eq (hAsked asked hMem)
  unfold loadFrom at hLoad ⊢
  rw [hFind]
  cases hFound : Settings.find? disk start with
  | none =>
      rw [hFound] at hLoad
      exact hLoad
  | some path =>
      rw [hFound] at hLoad
      rcases bind_eq_ok.mp hLoad with ⟨settings, hRead, hProject⟩
      cases hProject
      have hText := h.readText_eq (hFile path rfl)
      exact bind_eq_ok.mpr ⟨settings, (bind_withContext_congr hText).mpr hRead, rfl⟩

theorem Project.load_of_changedIn (h : disk.ChangedIn places disk')
    (hAsked : ∀ asked ∈ Audit.settingsPlaces disk.cwdPath, ∀ place,
      disk.place? asked.path = some place → places place → disk.exists? asked.path = true)
    {project : Project}
    (hFile : ∀ path, project.file = some path → ∀ place, disk.place? path = some place →
      ¬places place)
    (hLoad : load disk = .ok project) : load disk' = .ok project := by
  rcases load_eq_ok.mp hLoad with ⟨hDirectory, hFrom⟩
  rw [load_eq_ok, h.cwd_eq, h.cwdPath_eq]
  exact ⟨h.isDirectoryAt_iff.mpr hDirectory, loadFrom_of_changedIn h hAsked hFile hFrom⟩

end Changed

/-!
# The whole audit
-/

namespace Audit
namespace UnusedKeys

open Catalog (FlatCatalog)
open CommandLine (UnusedArguments)
open SourceScan (Misses)

/-- Nothing that the audit reads is at this place, and it does not look for a file there in vain. -/
structure IsUnread (disk : Disk) (project : Project) (arguments : UnusedArguments)
    (place : Location) : Prop where
  asked : ∀ asked ∈ settingsPlaces disk.cwdPath,
    disk.place? asked.path = some place → disk.exists? asked.path = true
  settings : ∀ path, project.file = some path → disk.place? path ≠ some place
  catalog : ∀ path, catalogPath project arguments = .ok path → disk.place? path ≠ some place
  ignoreList : ∀ path, ignoreListPath? project arguments = some path →
    disk.place? path ≠ some place

instance (disk : Disk) (project : Project) (arguments : UnusedArguments) (place : Location) :
    Decidable (IsUnread disk project arguments place) :=
  decidable_of_iff
    ((∀ asked ∈ settingsPlaces disk.cwdPath,
        disk.place? asked.path = some place → disk.exists? asked.path = true) ∧
      (∀ path ∈ project.file, disk.place? path ≠ some place) ∧
      (∀ path ∈ (catalogPath project arguments).toOption, disk.place? path ≠ some place) ∧
      ∀ path ∈ ignoreListPath? project arguments, disk.place? path ≠ some place)
    ⟨fun h => ⟨h.1, h.2.1, fun path hPath => h.2.2.1 path (toOption_eq_some.mpr hPath), h.2.2.2⟩,
      fun h => ⟨h.asked, h.settings, fun path hPath => h.catalog path (toOption_eq_some.mp hPath),
        h.ignoreList⟩⟩

theorem keysLeft_congr {disk disk' : Disk} {list : Option Path}
    (h : ∀ path, list = some path →
      (disk'.readText path).toOption = (disk.readText path).toOption) (keys : KeySet) :
    keysLeft disk' list keys = keysLeft disk list keys := by
  unfold keysLeft
  cases hList : list with
  | none => rfl
  | some path => simp only [Option.bind_some, IgnoreList.read_congr (h path hList)]

section Changed

variable {places : Location → Prop} {disk disk' : Disk} {project : Project}
  {arguments : UnusedArguments}

theorem Sees.of_changedIn (h : disk.ChangedIn places disk')
    (hUnread : ∀ place, places place → IsUnread disk project arguments place)
    (hMisses : ∀ place, places place → Misses disk (scanRequest project arguments) place)
    {flat : FlatCatalog} {files : List SourceFile}
    (hSees : Sees disk arguments project flat files) :
    Sees disk' arguments project flat files := by
  constructor
  case project_eq =>
    apply Project.load_of_changedIn h _ _ hSees.project_eq
    · intro asked hAsked place hPlace hChanged
      exact (hUnread place hChanged).asked asked hAsked hPlace
    · intro path hPath place hPlace hChanged
      exact (hUnread place hChanged).settings path hPath hPlace
  case catalog =>
    rcases hSees.catalog with ⟨path, hPath, hLoad⟩
    refine ⟨path, hPath, (Catalog.load_congr (h.readText_eq ?_)).mpr hLoad⟩
    intro place hPlace hChanged
    exact (hUnread place hChanged).catalog path hPath hPlace
  case sources => exact SourceScan.sources_of_changedIn h hMisses hSees.sources

theorem keysLeft_of_changedIn (h : disk.ChangedIn places disk')
    (hUnread : ∀ place, places place → IsUnread disk project arguments place) (keys : KeySet) :
    keysLeft disk' (ignoreListPath? project arguments) keys =
      keysLeft disk (ignoreListPath? project arguments) keys := by
  apply keysLeft_congr
  intro path hPath
  apply h.readText_eq
  intro place hPlace hChanged
  exact (hUnread place hChanged).ignoreList path hPath hPlace

end Changed

end UnusedKeys
end Audit
end CatalogAudit
