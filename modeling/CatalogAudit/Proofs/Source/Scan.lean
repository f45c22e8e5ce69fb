import CatalogAudit.Proofs.FileTree.Changes
import CatalogAudit.Proofs.FileTree.Listing
import CatalogAudit.Source.File

/-!
# What a scan finds

A scan finds the files below the root that the request covers, each of them once and in the order of
their locations, except those that it finds out to be excluded. A file that appears or changes makes
no difference to a scan that takes it neither before nor afterwards.
-/

namespace CatalogAudit

namespace SourceScan

open FileTree (Disk Entries IsFileName Location Name Node)

/-!
# Covered files
-/

/-- The name matches a pattern, and no directory on the way is passed over. -/
structure Request.Covers (request : Request) (patterns : List Glob.Pattern) (file : Location) :
    Prop where
  directories : ∀ name ∈ file.dropLast, isIgnored request.ignoredDirs name = false
  name : ∃ name, file.getLast? = some name ∧ isSource patterns name = true

instance (request : Request) (patterns : List Glob.Pattern) (file : Location) :
    Decidable (request.Covers patterns file) :=
  decidable_of_iff
    ((∀ name ∈ file.dropLast, isIgnored request.ignoredDirs name = false) ∧
      ∃ name ∈ file.getLast?, isSource patterns name = true)
    ⟨fun h => ⟨h.1, h.2⟩, fun h => ⟨h.directories, h.name⟩⟩

/-- The canonical locations of the file and of an excluded path can be found and are the same. -/
def Excludes (disk : Disk) (request : Request) (file : Location) : Prop :=
  ∃ path ∈ request.excluded, ∃ place, disk.canonical? path = some place ∧
    disk.canonical? (pathBelow request.root file) = some place

/-- The file is there and covered, and it is not found to be excluded. -/
structure Takes (disk : Disk) (request : Request) (patterns : List Glob.Pattern)
    (rootLocation file : Location) : Prop where
  isFile : ∃ content, disk.top.at? (rootLocation ++ file) = some (.file content)
  covers : request.Covers patterns file
  notExcluded : ¬Excludes disk request file

/-- The path of each directory that the scan opens below the root can be used. -/
def IsWalkable (request : Request) (entries : Entries) : Prop :=
  ∀ directory ∈
      FileTree.directoriesAmong (fun name => !isIgnored request.ignoredDirs name) entries,
    Disk.checkPath (pathBelow request.root directory) = .ok ()

instance (request : Request) (entries : Entries) : Decidable (IsWalkable request entries) :=
  inferInstanceAs (Decidable (∀ directory ∈ FileTree.directoriesAmong _ entries, _))

theorem Request.Covers.ne_nil {request : Request} {patterns : List Glob.Pattern} {file : Location}
    (h : request.Covers patterns file) : file ≠ [] := by
  rintro rfl
  rcases h.name with ⟨name, hLast, _⟩
  cases hLast

section Root

variable {disk : Disk} (hSound : disk.IsSound) {request : Request} {patterns : List Glob.Pattern}
  {rootLocation file : Location} {entries : Entries}
include hSound

theorem isFileName_of_isFile
    (h : ∃ content, disk.top.at? (rootLocation ++ file) = some (.file content)) :
    ∀ name ∈ file, IsFileName name := by
  rcases h with ⟨content, hFile⟩
  intro name hName
  exact hSound.top.isFileName_of_mem hFile name (List.mem_append_right rootLocation hName)

theorem eq_of_canonicalPlace?_pathBelow
    (hRoot : disk.resolve request.root = .ok (rootLocation, .directory entries))
    (hNonempty : file ≠ [])
    (hFile : ∃ content, disk.top.at? (rootLocation ++ file) = some (.file content))
    {place : Location} (h : disk.canonicalPlace? (pathBelow request.root file) = some place) :
    place = rootLocation ++ file := by
  have hNames := isFileName_of_isFile hSound hFile
  rcases hFile with ⟨content, hContent⟩
  exact Disk.eq_append_of_canonicalPlace?_pathBelow hRoot hNonempty hNames hContent h

/-- The names that are compared first decide nothing. -/
theorem isExcluded_iff
    (hRoot : disk.resolve request.root = .ok (rootLocation, .directory entries))
    (hFile : ∃ content, disk.top.at? (rootLocation ++ file) = some (.file content)) {name : Name}
    (hName : file.getLast? = some name) :
    isExcluded disk (request.excluded.filterMap disk.canonical?) (pathBelow request.root file)
        name = true ↔
      Excludes disk request file := by
  have hNonempty : file ≠ [] := by
    rintro rfl
    cases hName
  unfold isExcluded
  rw [Bool.and_eq_true, List.any_eq_true, Option.any_eq_true]
  simp only [List.contains_iff_mem, List.mem_filterMap]
  constructor
  · intro h
    rcases h.2 with ⟨place, hPlace, path, hPath, hCanonical⟩
    exact ⟨path, hPath, place, hCanonical, hPlace⟩
  · intro h
    rcases h with ⟨path, hPath, place, hCanonical, hPlace⟩
    have hSame := eq_of_canonicalPlace?_pathBelow hSound hRoot hNonempty hFile
      (Disk.canonical?_eq_some.mp hPlace).1
    refine ⟨⟨place, ⟨path, hPath, hCanonical⟩, ?_⟩, place, hPlace, path, hPath, hCanonical⟩
    rw [hSame, List.getLast?_append, hName]
    exact beq_self_eq_true _

theorem takes_iff (hRoot : disk.resolve request.root = .ok (rootLocation, .directory entries)) :
    Takes disk request patterns rootLocation file ↔
      (Node.directory entries).HasFile (fun name => !isIgnored request.ignoredDirs name) file ∧
        (match file.getLast? with
        | some name =>
            isSource patterns name &&
              !isExcluded disk (request.excluded.filterMap disk.canonical?)
                (pathBelow request.root file) name
        | none => false) = true := by
  have hDirectory := Disk.isIn_of_locate (Disk.resolve_eq_ok.mp hRoot)
  constructor
  · intro h
    rcases h.covers.name with ⟨name, hLast, hSource⟩
    have hNot := mt (isExcluded_iff hSound hRoot h.isFile hLast).mp h.notExcluded
    refine ⟨⟨?_, ?_⟩, ?_⟩
    · rw [← Node.at?_append hDirectory]
      exact h.isFile
    · intro directory hMem
      simp only [h.covers.directories directory hMem, Bool.not_false]
    · rw [hLast]
      simp only [hSource, Bool.eq_false_iff.mpr hNot]
      rfl
  · intro h
    rcases h with ⟨⟨hFile, hDirectories⟩, hTest⟩
    rw [← Node.at?_append hDirectory] at hFile
    cases hLast : file.getLast? with
    | none =>
        rw [hLast] at hTest
        cases hTest
    | some name =>
        rw [hLast] at hTest
        simp only [Bool.and_eq_true, Bool.not_eq_true'] at hTest
        refine ⟨hFile, ⟨?_, name, hLast, hTest.1⟩, ?_⟩
        · intro directory hMem
          simpa using hDirectories directory hMem
        · intro hExcludes
          have hYes := (isExcluded_iff hSound hRoot hFile hLast).mpr hExcludes
          rw [hYes] at hTest
          cases hTest.2

end Root

/-!
# Found files
-/

structure Finds (disk : Disk) (request : Request) (patterns : List Glob.Pattern)
    (rootLocation : Location) (files : List Location) : Prop where
  ascending : files.Pairwise (· < ·)
  mem_iff : ∀ file, file ∈ files ↔ Takes disk request patterns rootLocation file

theorem Finds.unique {disk disk' : Disk} {request request' : Request}
    {patterns : List Glob.Pattern} {rootLocation : Location} {files files' : List Location}
    (h : Finds disk request patterns rootLocation files)
    (h' : Finds disk' request' patterns rootLocation files')
    (hSame : ∀ file, Takes disk request patterns rootLocation file ↔
      Takes disk' request' patterns rootLocation file) : files = files' := by
  apply h.ascending.eq_of_mem_iff h'.ascending
  intro file
  rw [h.mem_iff, h'.mem_iff, hSame]

theorem openDirectory_eq_ok {root path : Path} :
    openDirectory root path = .ok () ↔ Disk.checkPath path = .ok () := by
  unfold openDirectory
  cases Disk.checkPath path with
  | ok _ => simp
  | error fault => simp

theorem openDirectories_eq_ok {request : Request} {entries : Entries} :
    (FileTree.directoriesAmong (fun name => !isIgnored request.ignoredDirs name)
        entries).forM (fun directory =>
          openDirectory request.root (pathBelow request.root directory)) = .ok () ↔
      IsWalkable request entries := by
  rw [forM_eq_ok]
  simp only [openDirectory_eq_ok]
  exact Iff.rfl

theorem find_of_root {disk : Disk} (hSound : disk.IsSound) {request : Request}
    {rootLocation : Location} {entries : Entries}
    (hRoot : disk.resolve request.root = .ok (rootLocation, .directory entries))
    {patterns : List Glob.Pattern} (hPatterns : compilePatterns request.patterns = .ok patterns)
    (hWalk : IsWalkable request entries) :
    ∃ files, Finds disk request patterns rootLocation files ∧
      find disk request = .ok (files.map (pathBelow request.root)) := by
  have hDirectory := Disk.isIn_of_locate (Disk.resolve_eq_ok.mp hRoot)
  have hEntries := hSound.top.of_at? hDirectory
  refine ⟨(FileTree.filesAmong (fun name => !isIgnored request.ignoredDirs name) entries).filter
    fun file =>
      match file.getLast? with
      | some name =>
          isSource patterns name &&
            !isExcluded disk (request.excluded.filterMap disk.canonical?)
              (pathBelow request.root file) name
      | none => false, ?_, ?_⟩
  · constructor
    · exact (Node.pairwise_filesAmong _ hEntries).filter _
    · intro file
      rw [List.mem_filter, Node.mem_filesAmong hEntries, takes_iff hSound hRoot]
  · unfold find
    rw [hRoot]
    simp only [hPatterns, bind, Except.bind, openDirectories_eq_ok.mpr hWalk]
    rfl

theorem exists_finds {disk : Disk} (hSound : disk.IsSound) {request : Request}
    {paths : List Path} (h : find disk request = .ok paths) :
    ∃ rootLocation entries patterns files,
      disk.resolve request.root = .ok (rootLocation, .directory entries) ∧
        compilePatterns request.patterns = .ok patterns ∧ IsWalkable request entries ∧
        Finds disk request patterns rootLocation files ∧
        paths = files.map (pathBelow request.root) := by
  have hFind := h
  unfold find at hFind
  split at hFind
  · cases hFind
  · rename_i rootLocation entries hRoot
    rcases bind_eq_ok.mp hFind with ⟨patterns, hPatterns, hFind⟩
    rcases bind_eq_ok.mp hFind with ⟨_, hOpen, _⟩
    have hWalk := openDirectories_eq_ok.mp hOpen
    rcases find_of_root hSound hRoot hPatterns hWalk with ⟨files, hFiles, hPaths⟩
    rw [h] at hPaths
    cases hPaths
    exact ⟨rootLocation, entries, patterns, files, hRoot, hPatterns, hWalk, hFiles, rfl⟩
  · cases hFind
  · cases hFind

/-- Below a directory a scan fails by its patterns, or by a directory that cannot be opened. -/
theorem find_eq_error_iff {disk : Disk} {request : Request} {rootLocation : Location}
    {entries : Entries}
    (hRoot : disk.resolve request.root = .ok (rootLocation, .directory entries)) {fault : Fault} :
    find disk request = .error fault ↔
      (compilePatterns request.patterns >>= fun _ =>
        (FileTree.directoriesAmong (fun name => !isIgnored request.ignoredDirs name)
          entries).forM fun directory =>
            openDirectory request.root (pathBelow request.root directory)) = .error fault := by
  unfold find
  rw [hRoot]
  cases compilePatterns request.patterns with
  | error fault' => simp [bind, Except.bind]
  | ok patterns =>
      simp only [bind, Except.bind]
      split
      · rename_i fault' hOpen
        rw [hOpen, Except.error.injEq, Except.error.injEq]
      · rename_i hOpen
        rw [hOpen]
        exact iff_of_false (fun h => by cases h) fun h => by cases h

/-!
# A place that is never taken
-/

def TakesPlace (disk : Disk) (request : Request) (place : Location) : Prop :=
  ∃ rootLocation entries patterns file,
    disk.resolve request.root = .ok (rootLocation, .directory entries) ∧
      compilePatterns request.patterns = .ok patterns ∧ rootLocation ++ file = place ∧
      Takes disk request patterns rootLocation file

section Changed

variable {place : Location} {disk disk' : Disk} {request : Request} {paths : List Path}

theorem directoriesAmong_eq_of_changedAt (h : disk.ChangedAt place disk') {location : Location}
    {entries inner : Entries} (hEntries : disk.top.at? location = some (.directory entries))
    (hInner : disk'.top.at? location = some (.directory inner)) (admits : Name → Bool) :
    FileTree.directoriesAmong admits inner = FileTree.directoriesAmong admits entries := by
  have hSound := h.sound.top.of_at? hEntries
  have hSound' := h.sound'.top.of_at? hInner
  apply (Node.pairwise_directoriesAmong admits hSound').eq_of_mem_iff
    (Node.pairwise_directoriesAmong admits hSound)
  intro directory
  have hSame : disk'.top.IsDirectoryAt (location ++ directory) ↔
      disk.top.IsDirectoryAt (location ++ directory) := h.isDirectoryAt_iff
  unfold Node.IsDirectoryAt at hSame
  rw [Node.at?_append hEntries, Node.at?_append hInner] at hSame
  rw [Node.mem_directoriesAmong hSound', Node.mem_directoriesAmong hSound]
  unfold Node.HasDirectory Node.IsDirectoryAt
  rw [hSame]

theorem isWalkable_iff_of_changedAt (h : disk.ChangedAt place disk') {location : Location}
    {entries inner : Entries} (hEntries : disk.top.at? location = some (.directory entries))
    (hInner : disk'.top.at? location = some (.directory inner)) :
    IsWalkable request entries ↔ IsWalkable request inner := by
  unfold IsWalkable
  rw [directoriesAmong_eq_of_changedAt h hEntries hInner]

theorem takes_iff_of_changedAt (h : disk.ChangedAt place disk') {patterns : List Glob.Pattern}
    {rootLocation file : Location} {entries : Entries}
    (hRoot : disk.resolve request.root = .ok (rootLocation, .directory entries))
    (hOther : rootLocation ++ file ≠ place) :
    Takes disk request patterns rootLocation file ↔
      Takes disk' request patterns rootLocation file := by
  have hFile : (∃ content, disk'.top.at? (rootLocation ++ file) = some (.file content)) ↔
      ∃ content, disk.top.at? (rootLocation ++ file) = some (.file content) :=
    exists_congr fun _ => h.at?_eq_file hOther
  have hExcludes : request.Covers patterns file →
      (∃ content, disk.top.at? (rootLocation ++ file) = some (.file content)) →
      (Excludes disk' request file ↔ Excludes disk request file) := by
    intro hCovers hThere
    -- What the file is compared by is its own place, which is not the one that has changed.
    have hPlace : ∀ {found : Location},
        disk.canonicalPlace? (pathBelow request.root file) = some found → found ≠ place := by
      intro found hFound
      rw [eq_of_canonicalPlace?_pathBelow h.sound hRoot hCovers.ne_nil hThere hFound]
      exact hOther
    constructor
    · intro hExcludes
      rcases hExcludes with ⟨path, hPath, found, hCanonical, hFound⟩
      have hElsewhere := hPlace
        ((h.canonicalPlace?_eq _).symm.trans (Disk.canonical?_eq_some.mp hFound).1)
      exact ⟨path, hPath, found, (h.canonical?_eq_some hElsewhere).mp hCanonical,
        (h.canonical?_eq_some hElsewhere).mp hFound⟩
    · intro hExcludes
      rcases hExcludes with ⟨path, hPath, found, hCanonical, hFound⟩
      exact ⟨path, hPath, found, h.canonical?_of_canonical? hCanonical,
        h.canonical?_of_canonical? hFound⟩
  constructor
  · intro hTakes
    exact ⟨hFile.mpr hTakes.isFile, hTakes.covers,
      mt (hExcludes hTakes.covers hTakes.isFile).mp hTakes.notExcluded⟩
  · intro hTakes
    have hThere := hFile.mp hTakes.isFile
    exact ⟨hThere, hTakes.covers, mt (hExcludes hTakes.covers hThere).mpr hTakes.notExcluded⟩

theorem takesPlace_of_changedAt (h : disk.ChangedAt place disk')
    (hThere : ∃ content, disk.top.at? place = some (.file content))
    (hTakes : TakesPlace disk' request place) : TakesPlace disk request place := by
  rcases hTakes with ⟨rootLocation, entries, patterns, file, hRoot, hPatterns, rfl, hFile⟩
  rcases h.exists_directory_before hRoot with ⟨inner, hRoot⟩
  refine ⟨rootLocation, inner, patterns, file, hRoot, hPatterns, rfl, hThere, hFile.covers, ?_⟩
  intro hExcludes
  rcases hExcludes with ⟨path, hPath, found, hCanonical, hFound⟩
  exact hFile.notExcluded ⟨path, hPath, found, h.canonical?_of_canonical? hCanonical,
    h.canonical?_of_canonical? hFound⟩

/-- Two scans that take the same files below the same root are the same. -/
theorem find_of_takes_iff (hSound : disk.IsSound) (hSound' : disk'.IsSound)
    (hSame : ∀ rootLocation entries,
      disk.resolve request.root = .ok (rootLocation, .directory entries) →
      ∃ inner, disk'.resolve request.root = .ok (rootLocation, .directory inner) ∧
        (IsWalkable request entries → IsWalkable request inner) ∧
        ∀ patterns, compilePatterns request.patterns = .ok patterns →
          ∀ file, Takes disk request patterns rootLocation file ↔
            Takes disk' request patterns rootLocation file)
    (hFind : find disk request = .ok paths) : find disk' request = .ok paths := by
  rcases exists_finds hSound hFind with
    ⟨rootLocation, entries, patterns, files, hRoot, hPatterns, hWalk, hFiles, rfl⟩
  rcases hSame rootLocation entries hRoot with ⟨inner, hRoot', hWalk', hTakes⟩
  rcases find_of_root hSound' hRoot' hPatterns (hWalk' hWalk) with ⟨files', hFiles', hFind'⟩
  rw [hFind', hFiles.unique hFiles' (hTakes patterns hPatterns)]

theorem find_iff_of_changedAt (h : disk.ChangedAt place disk')
    (hBefore : ¬TakesPlace disk request place) (hAfter : ¬TakesPlace disk' request place) :
    find disk' request = .ok paths ↔ find disk request = .ok paths := by
  -- The changed file is not taken on either disk, and every other file is taken on both or on none.
  have hTakes : ∀ {rootLocation entries inner},
      disk.resolve request.root = .ok (rootLocation, .directory entries) →
      disk'.resolve request.root = .ok (rootLocation, .directory inner) →
      ∀ patterns, compilePatterns request.patterns = .ok patterns →
        ∀ file, Takes disk request patterns rootLocation file ↔
          Takes disk' request patterns rootLocation file := by
    intro rootLocation entries inner hRoot hRoot' patterns hPatterns file
    by_cases hOther : rootLocation ++ file = place
    · have hNot : ¬Takes disk request patterns rootLocation file := fun hTakes =>
        hBefore ⟨rootLocation, entries, patterns, file, hRoot, hPatterns, hOther, hTakes⟩
      have hNot' : ¬Takes disk' request patterns rootLocation file := fun hTakes =>
        hAfter ⟨rootLocation, inner, patterns, file, hRoot', hPatterns, hOther, hTakes⟩
      exact iff_of_false hNot hNot'
    · exact takes_iff_of_changedAt h hRoot hOther
  have hWalk : ∀ {rootLocation entries inner},
      disk.resolve request.root = .ok (rootLocation, .directory entries) →
      disk'.resolve request.root = .ok (rootLocation, .directory inner) →
      (IsWalkable request entries ↔ IsWalkable request inner) := by
    intro rootLocation entries inner hRoot hRoot'
    exact isWalkable_iff_of_changedAt h (Disk.isIn_of_locate (Disk.resolve_eq_ok.mp hRoot))
      (Disk.isIn_of_locate (Disk.resolve_eq_ok.mp hRoot'))
  constructor
  · apply find_of_takes_iff h.sound' h.sound
    intro rootLocation entries hRoot'
    rcases h.exists_directory_before hRoot' with ⟨inner, hRoot⟩
    exact ⟨inner, hRoot, (hWalk hRoot hRoot').mpr, fun patterns hPatterns file =>
      (hTakes hRoot hRoot' patterns hPatterns file).symm⟩
  · apply find_of_takes_iff h.sound h.sound'
    intro rootLocation entries hRoot
    rcases h.exists_directory hRoot with ⟨inner, hRoot'⟩
    exact ⟨inner, hRoot', (hWalk hRoot hRoot').mp, hTakes hRoot hRoot'⟩

end Changed

end SourceScan

/-!
# Loaded files
-/

namespace SourceFile

open FileTree (Disk Location)

theorem load_of_readBytes {disk disk' : Disk} {path : Path}
    (hBytes : (disk'.readBytes path).toOption = (disk.readBytes path).toOption) {root : Path}
    {source : SourceFile} (h : load disk root path = .ok source) :
    load disk' root path = .ok source :=
  (bind_withContext_congr hBytes).mpr h

theorem place?_of_takes {disk : Disk} (hSound : disk.IsSound) {request : SourceScan.Request}
    {patterns : List Glob.Pattern} {rootLocation file : Location} {entries : FileTree.Entries}
    (hRoot : disk.resolve request.root = .ok (rootLocation, .directory entries))
    (hTakes : SourceScan.Takes disk request patterns rootLocation file) {source : SourceFile}
    (hSource : load disk request.root (SourceScan.pathBelow request.root file) = .ok source) :
    disk.place? (SourceScan.pathBelow request.root file) = some (rootLocation ++ file) := by
  rcases hTakes.isFile with ⟨content, hContent⟩
  rcases bind_eq_ok.mp hSource with ⟨bytes, hRead, _⟩
  rcases bind_eq_ok.mp (withContext_eq_ok.mp hRead) with ⟨found, hResolve, _⟩
  have hCheck := FileTree.Disk.checkPath_of_locate (FileTree.Disk.resolve_eq_ok.mp hResolve)
  have hLocate := FileTree.Disk.locate_pathBelow hRoot hTakes.covers.ne_nil
    (SourceScan.isFileName_of_isFile hSound hTakes.isFile) hCheck hContent
  exact FileTree.Disk.place?_of_resolve (FileTree.Disk.resolve_eq_ok.mpr hLocate)

theorem loadAll_of_readBytes {disk disk' : Disk} (hSound : disk.IsSound) {place : Location}
    (hBytes : ∀ path, disk.place? path ≠ some place →
      (disk'.readBytes path).toOption = (disk.readBytes path).toOption)
    {request : SourceScan.Request} {paths : List Path}
    (hFind : SourceScan.find disk request = .ok paths)
    (hNot : ¬SourceScan.TakesPlace disk request place) {sources : List SourceFile}
    (hLoad : loadAll disk request.root paths = .ok sources) :
    loadAll disk' request.root paths = .ok sources := by
  rcases SourceScan.exists_finds hSound hFind with
    ⟨rootLocation, entries, patterns, files, hRoot, hPatterns, _, hFiles, rfl⟩
  apply mapM_eq_ok_of_forall _ hLoad
  intro path hPath source hSource
  rcases List.mem_map.mp hPath with ⟨file, hFile, rfl⟩
  have hTakes := (hFiles.mem_iff file).mp hFile
  have hOther : rootLocation ++ file ≠ place := fun hEq =>
    hNot ⟨rootLocation, entries, patterns, file, hRoot, hPatterns, hEq, hTakes⟩
  have hPlace : disk.place? (SourceScan.pathBelow request.root file) ≠ some place := by
    rw [place?_of_takes hSound hRoot hTakes hSource]
    exact fun hEq => hOther (Option.some.inj hEq)
  exact load_of_readBytes (hBytes _ hPlace) hSource

end SourceFile

/-!
# Files that a scan misses

A file that is known to be excluded, or that the request does not cover, is never taken. This
depends on where the paths lead and on nothing else, so it stays so when files change.
-/

namespace SourceScan

open FileTree (Disk Location Name)

/-- Whenever the request covers a file at this place, the canonical locations show it excluded. -/
def Misses (disk : Disk) (request : Request) (place : Location) : Prop :=
  ∀ rootLocation patterns file, disk.place? request.root = some rootLocation →
    compilePatterns request.patterns = .ok patterns → rootLocation ++ file = place →
      request.Covers patterns file →
        disk.canonicalPlace? (pathBelow request.root file) = some place ∧
          ∃ path ∈ request.excluded, disk.canonicalPlace? path = some place

instance (disk : Disk) (request : Request) (place : Location) :
    Decidable (Misses disk request place) :=
  decidable_of_iff
    (∀ rootLocation ∈ disk.place? request.root,
      ∀ patterns ∈ (compilePatterns request.patterns).toOption, rootLocation <+: place →
        request.Covers patterns (place.drop rootLocation.length) →
          disk.canonicalPlace? (pathBelow request.root (place.drop rootLocation.length)) =
              some place ∧
            ∃ path ∈ request.excluded, disk.canonicalPlace? path = some place)
    ⟨by
      rintro h rootLocation patterns file hRoot hPatterns rfl hCovers
      have hSame : (rootLocation ++ file).drop rootLocation.length = file := List.drop_left
      have hFile := h rootLocation hRoot patterns (toOption_eq_some.mpr hPatterns)
        (List.prefix_append rootLocation file)
      rw [hSame] at hFile
      exact hFile hCovers,
    by
      rintro h rootLocation hRoot patterns hPatterns ⟨file, rfl⟩ hCovers
      have hSame : (rootLocation ++ file).drop rootLocation.length = file := List.drop_left
      rw [hSame] at hCovers ⊢
      exact h rootLocation patterns file hRoot (toOption_eq_some.mp hPatterns) rfl hCovers⟩

theorem misses_of_name (disk : Disk) {request : Request} {place : Location} {name : Name}
    (hName : place.getLast? = some name)
    (h : ∀ patterns, compilePatterns request.patterns = .ok patterns →
      isSource patterns name = false) : Misses disk request place := by
  intro rootLocation patterns file _ hPatterns hPlace hCovers
  rcases hCovers.name with ⟨other, hLast, hSource⟩
  rw [← hPlace, List.getLast?_append, hLast] at hName
  cases hName
  cases (h patterns hPatterns).symm.trans hSource

theorem Misses.not_takesPlace {disk : Disk} {request : Request} {place : Location}
    (h : Misses disk request place) : ¬TakesPlace disk request place := by
  intro hTakes
  rcases hTakes with ⟨rootLocation, entries, patterns, file, hRoot, hPatterns, rfl, hFile⟩
  rcases h rootLocation patterns file (Disk.place?_of_resolve hRoot) hPatterns rfl
    hFile.covers with ⟨hBelow, path, hPath, hPlace⟩
  rcases hFile.isFile with ⟨content, hContent⟩
  have hThere : (disk.top.at? (rootLocation ++ file)).isSome = true := by
    rw [hContent]
    rfl
  exact hFile.notExcluded ⟨path, hPath, _, Disk.canonical?_eq_some.mpr ⟨hPlace, hThere⟩,
    Disk.canonical?_eq_some.mpr ⟨hBelow, hThere⟩⟩

section Changed

variable {places : Location → Prop} {disk disk' : Disk} {request : Request}

theorem misses_iff_of_changedIn (h : disk.ChangedIn places disk') {place : Location} :
    Misses disk' request place ↔ Misses disk request place := by
  unfold Misses
  simp only [h.place?_eq, h.canonicalPlace?_eq]

theorem sources_iff_of_not_takesPlace {place : Location} (h : disk.ChangedAt place disk')
    (hBefore : ¬TakesPlace disk request place) (hAfter : ¬TakesPlace disk' request place)
    {files : List SourceFile} :
    (∃ paths, find disk' request = .ok paths ∧
        SourceFile.loadAll disk' request.root paths = .ok files) ↔
      ∃ paths, find disk request = .ok paths ∧
        SourceFile.loadAll disk request.root paths = .ok files := by
  apply exists_congr
  intro paths
  constructor
  · intro hSources
    rcases hSources with ⟨hFind, hLoad⟩
    refine ⟨(find_iff_of_changedAt h hBefore hAfter).mp hFind,
      SourceFile.loadAll_of_readBytes h.sound' ?_ hFind hAfter hLoad⟩
    intro path hOther
    rw [h.place?_eq] at hOther
    exact (h.readBytes_eq hOther).symm
  · intro hSources
    rcases hSources with ⟨hFind, hLoad⟩
    exact ⟨(find_iff_of_changedAt h hBefore hAfter).mpr hFind,
      SourceFile.loadAll_of_readBytes h.sound (fun _ hOther => h.readBytes_eq hOther) hFind hBefore
        hLoad⟩

theorem sources_iff_of_changedAt {place : Location} (h : disk.ChangedAt place disk')
    (hMisses : Misses disk request place) {files : List SourceFile} :
    (∃ paths, find disk' request = .ok paths ∧
        SourceFile.loadAll disk' request.root paths = .ok files) ↔
      ∃ paths, find disk request = .ok paths ∧
        SourceFile.loadAll disk request.root paths = .ok files := by
  have hChanged : disk.ChangedIn (· = place) disk' := .of_changedAt h rfl
  exact sources_iff_of_not_takesPlace h hMisses.not_takesPlace
    ((misses_iff_of_changedIn hChanged).mpr hMisses).not_takesPlace

theorem sources_of_changedIn (h : disk.ChangedIn places disk')
    (hMisses : ∀ place, places place → Misses disk request place) {files : List SourceFile}
    (hSources : ∃ paths, find disk request = .ok paths ∧
      SourceFile.loadAll disk request.root paths = .ok files) :
    ∃ paths, find disk' request = .ok paths ∧
      SourceFile.loadAll disk' request.root paths = .ok files := by
  induction h with
  | refl => exact hSources
  | tail hBefore hStep ih =>
      rcases hStep with ⟨place, hPlace, hChanged⟩
      have hMiss := (misses_iff_of_changedIn hBefore).mpr (hMisses place hPlace)
      exact (sources_iff_of_changedAt hChanged hMiss).mpr ih

end Changed

end SourceScan
end CatalogAudit
