import CatalogAudit.Catalog.IgnoreList
import CatalogAudit.Locale.Messages
import CatalogAudit.Proofs.FileTree.Frame
import CatalogAudit.Settings.Project
import CatalogAudit.Source.File
import CatalogAudit.Usage.CacheFile

/-!
# Readers

Two disks with the same text at a path give the same settings, catalog, ignore list, and records
there, or the same fault.
-/

namespace CatalogAudit

open FileTree (Disk)

/-!
# Settings
-/

namespace Project

theorem load_eq_ok {disk : Disk} {project : Project} :
    load disk = .ok project ↔
      disk.top.IsDirectoryAt disk.cwd ∧ loadFrom disk disk.cwdPath = .ok project := by
  unfold load
  simp only [bind_eq_ok, withContext_eq_ok, FileTree.Disk.workingDirectory_eq_ok]
  constructor
  · intro h
    rcases h with ⟨_, ⟨hDirectory, rfl⟩, hLoad⟩
    exact ⟨hDirectory, hLoad⟩
  · intro h
    exact ⟨disk.cwdPath, ⟨h.1, rfl⟩, h.2⟩

theorem load_eq_loadFrom {disk : Disk} (h : disk.top.IsDirectoryAt disk.cwd) :
    load disk = loadFrom disk disk.cwdPath := by
  unfold load
  rw [FileTree.Disk.workingDirectory_eq_ok.mpr ⟨h, rfl⟩]
  rfl

end Project

/-!
# Texts
-/

section Texts

variable {disk disk' : Disk} {path : Path} (h : disk'.readText path = disk.readText path)
include h

theorem Settings.read_eq_of_readText : read disk' path = read disk path := by
  unfold read
  rw [h]

theorem Catalog.load_eq_of_readText : load disk' path = load disk path := by
  unfold load
  rw [h]

theorem IgnoreList.read_eq_of_readText : read disk' path = read disk path := by
  unfold read
  rw [h]

theorem MatchCache.readRecords_eq_of_readText : readRecords disk' path = readRecords disk path := by
  unfold readRecords
  rw [h]

theorem Locale.load_eq_of_readText : load disk' path = load disk path := by
  unfold load
  rw [Catalog.load_eq_of_readText h]

end Texts

theorem SourceFile.load_eq_of_readBytes {disk disk' : Disk} {path : Path}
    (h : disk'.readBytes path = disk.readBytes path) (root : Path) :
    load disk' root path = load disk root path := by
  unfold load
  rw [h]

/-!
# Locale files
-/

namespace Locale

theorem exists_of_files_eq_ok {disk : Disk} {directory : Path} {found : List LocaleFile}
    (h : files disk directory = .ok found) :
    ∃ names, disk.listDirectory directory = .ok names ∧
      ∀ file ∈ found, ∃ name ∈ names, localeOf? name = some file.locale ∧
        file.path = Path.join directory name := by
  rcases bind_eq_ok.mp h with ⟨names, hNames, hFound⟩
  cases hFound
  refine ⟨names, withContext_eq_ok.mp hNames, ?_⟩
  intro file hFile
  rcases List.mem_filterMap.mp hFile with ⟨name, hName, hPick⟩
  simp only at hPick
  split at hPick
  · rcases Option.map_eq_some_iff.mp hPick with ⟨locale, hLocale, rfl⟩
    exact ⟨name, hName, hLocale, rfl⟩
  · cases hPick

theorem loadAll_eq_of_files {disk disk' : Disk} {directory : Path}
    (hFiles : files disk' directory = files disk directory)
    (hLoad : ∀ found, files disk directory = .ok found →
      ∀ file ∈ found, load disk' file.path = load disk file.path) :
    loadAll disk' directory = loadAll disk directory := by
  unfold loadAll
  rw [hFiles]
  cases hFound : files disk directory with
  | error fault => rfl
  | ok found =>
      have hSame : loadFiles disk' found = loadFiles disk found := by
        unfold loadFiles
        rw [mapM_eq_of_forall fun file hFile => by rw [hLoad found hFound file hFile]]
      simp only [bind, Except.bind, hSame]

end Locale
end CatalogAudit
