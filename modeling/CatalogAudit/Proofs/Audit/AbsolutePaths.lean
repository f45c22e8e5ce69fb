import CatalogAudit.Proofs.Audit.Readers
import CatalogAudit.Proofs.FileTree.Above
import CatalogAudit.Proofs.FileTree.Moved
import CatalogAudit.Proofs.Usage.CanonicalFile
import CatalogAudit.Report.Document
import CatalogAudit.Source.Scan

/-!
# Reading and writing by absolute paths

Everything that an audit does with the disk it does by paths. If these are absolute, the working
directory makes no difference.
-/

namespace CatalogAudit

open FileTree (Disk Location)

section Writers

variable {path : Path} (hPath : Path.isAbsolute path = true) (disk : Disk) (cwd : Location)
include hPath

theorem Report.write_movedTo (text : String) :
    write (disk.movedTo cwd) path text =
      (write disk path text).map fun written => written.movedTo cwd := by
  unfold write
  rw [Disk.write_movedTo hPath]
  cases disk.write path (bytesOf text) with
  | error fault => rfl
  | ok written => rfl

theorem MatchCache.save_movedTo {cache : MatchCache} (hCache : cache.path = path) :
    cache.save (disk.movedTo cwd) = (cache.save disk).map fun written => written.movedTo cwd := by
  unfold save
  rw [hCache, Disk.write_movedTo hPath]
  cases disk.write path (bytesOf cache.fileText) with
  | error fault => rfl
  | ok written => rfl

end Writers

/-!
# Settings
-/

theorem Settings.findIn_movedTo {directories : List Path}
    (hDirectories : ∀ directory ∈ directories, Path.isAbsolute directory = true) (disk : Disk)
    (cwd : Location) : findIn (disk.movedTo cwd) directories = findIn disk directories := by
  induction directories with
  | nil => rfl
  | cons directory above ih =>
      have hHere := Path.isAbsolute_join_of_isAbsolute (hDirectories directory (by simp))
      have hAbove := ih fun other hOther =>
        hDirectories other (List.mem_cons_of_mem directory hOther)
      unfold findIn
      rw [Disk.exists?_movedTo (hHere fileName), Disk.exists?_movedTo (hHere repositoryMark),
        hAbove]

section Projects

variable {project : Project} (hProject : Path.isAbsolute project.directory = true)
include hProject

theorem Project.isAbsolute_resolve (path : String) :
    Path.isAbsolute (project.resolve path) = true :=
  Path.isAbsolute_join_of_isAbsolute hProject (bytesOf path)

theorem Project.isAbsolute_pathOr {given : Option Path}
    (hGiven : ∀ path ∈ given, Path.isAbsolute path = true) (path : String) :
    Path.isAbsolute (project.pathOr given path) = true := by
  cases given with
  | none => exact Project.isAbsolute_resolve hProject path
  | some path => exact hGiven path rfl

end Projects

/-!
# Sources
-/

theorem SourceScan.isAbsolute_pathBelow_of_root {root : Path}
    (hRoot : Path.isAbsolute root = true) (location : Location) :
    Path.isAbsolute (pathBelow root location) = true := by
  induction location generalizing root with
  | nil => exact hRoot
  | cons name names ih => exact ih (Path.isAbsolute_join_of_isAbsolute hRoot name)

theorem SourceScan.find_movedTo {request : Request} (hRoot : Path.isAbsolute request.root = true)
    (hExcluded : ∀ path ∈ request.excluded, Path.isAbsolute path = true) (disk : Disk)
    (cwd : Location) : find (disk.movedTo cwd) request = find disk request := by
  have hSame : request.excluded.filterMap (disk.movedTo cwd).canonical? =
      request.excluded.filterMap disk.canonical? :=
    List.filterMap_congr fun path hPath => Disk.canonical?_movedTo (hExcluded path hPath) disk cwd
  have hExcludedSame : ∀ excluded file name,
      isExcluded (disk.movedTo cwd) excluded (pathBelow request.root file) name =
        isExcluded disk excluded (pathBelow request.root file) name := by
    intro excluded file name
    unfold isExcluded
    rw [Disk.canonical?_movedTo (isAbsolute_pathBelow_of_root hRoot file)]
  unfold find
  simp only [Disk.resolve_movedTo hRoot, hSame, hExcludedSame]

theorem SourceScan.isAbsolute_of_mem_find {disk : Disk} {request : Request} {paths : List Path}
    (h : find disk request = .ok paths) (hRoot : Path.isAbsolute request.root = true) :
    ∀ path ∈ paths, Path.isAbsolute path = true := by
  unfold find at h
  split at h
  · cases h
  · rcases bind_eq_ok.mp h with ⟨patterns, _, hOpen⟩
    rcases bind_eq_ok.mp hOpen with ⟨_, _, hPaths⟩
    cases hPaths
    intro path hPath
    rcases List.mem_map.mp hPath with ⟨file, _, rfl⟩
    exact isAbsolute_pathBelow_of_root hRoot file
  · cases h
  · cases h

theorem SourceFile.loadAll_movedTo {paths : List Path}
    (hPaths : ∀ path ∈ paths, Path.isAbsolute path = true) (root : Path) (disk : Disk)
    (cwd : Location) : loadAll (disk.movedTo cwd) root paths = loadAll disk root paths :=
  mapM_eq_of_forall fun path hPath =>
    load_eq_of_readBytes (Disk.readBytes_movedTo (hPaths path hPath) disk cwd) root

/-!
# Locales
-/

section Locales

variable {directory : Path} (hDirectory : Path.isAbsolute directory = true) (disk : Disk)
  (cwd : Location)
include hDirectory

theorem Locale.files_movedTo : files (disk.movedTo cwd) directory = files disk directory := by
  have hFile : ∀ name, (disk.movedTo cwd).isFile (Path.join directory name) =
      disk.isFile (Path.join directory name) := fun name =>
    Disk.isFile_movedTo (Path.isAbsolute_join_of_isAbsolute hDirectory name) disk cwd
  unfold files
  simp only [Disk.listDirectory_movedTo hDirectory, hFile]

theorem Locale.isAbsolute_of_mem_files {found : List LocaleFile}
    (h : files disk directory = .ok found) :
    ∀ file ∈ found, Path.isAbsolute file.path = true := by
  rcases exists_of_files_eq_ok h with ⟨_, _, hNames⟩
  intro file hFile
  rcases hNames file hFile with ⟨name, _, _, hPath⟩
  rw [hPath]
  exact Path.isAbsolute_join_of_isAbsolute hDirectory name

theorem Locale.loadAll_movedTo : loadAll (disk.movedTo cwd) directory = loadAll disk directory := by
  apply loadAll_eq_of_files (Locale.files_movedTo hDirectory disk cwd)
  intro found hFound file hFile
  have hPath := Locale.isAbsolute_of_mem_files hDirectory disk hFound file hFile
  exact load_eq_of_readText (Disk.readText_movedTo hPath disk cwd)

end Locales

end CatalogAudit
