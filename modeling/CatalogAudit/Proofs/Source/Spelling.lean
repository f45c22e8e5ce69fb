import CatalogAudit.Proofs.Source.Coverage
import CatalogAudit.Proofs.Text.Pieces

/-!
# Spellings of a source root

A directory can be reached by many paths. The names under which its files are kept are made of the
names below it alone, so two scans of one directory keep the same files under the same names with
the same digests, as long as the paths of the files can be used and the excluded ones are known
from both roots.
-/

namespace CatalogAudit

open FileTree (Disk Entries Location Name)

/-!
# Names that are texts
-/

theorem bytesOf_intercalate (texts : List String) :
    bytesOf ("/".intercalate texts) = [Path.slash].intercalate (texts.map bytesOf) := by
  induction texts with
  | nil => rfl
  | cons text texts ih =>
      cases texts with
      | nil => simp [List.intercalate]
      | cons next rest =>
          rw [String.intercalate_cons_of_ne_nil (List.cons_ne_nil next rest), bytesOf_append,
            bytesOf_append, ih]
          simp [List.intercalate]
          rfl

namespace SourceScan

def IsText (location : Location) : Prop :=
  ∀ name ∈ location, (textOf? name).isSome = true

theorem bytesOf_shown {name : Name} (h : (textOf? name).isSome = true) :
    bytesOf (Path.shown name) = name := by
  rcases Option.isSome_iff_exists.mp h with ⟨text, hText⟩
  unfold Path.shown
  rw [lossyTextOf_of_textOf? hText, bytesOf_of_textOf? hText]

/-- Slashes between names that are texts are where the names can be told apart again. -/
theorem eq_of_intercalate_shown_eq {names others : Location} (hNonempty : names ≠ [])
    (hNonempty' : others ≠ []) (hNames : ∀ name ∈ names, Path.slash ∉ name)
    (hOthers : ∀ name ∈ others, Path.slash ∉ name) (hText : IsText names) (hText' : IsText others)
    (h : "/".intercalate (names.map Path.shown) = "/".intercalate (others.map Path.shown)) :
    names = others := by
  have hBytes : ∀ {names : Location}, IsText names →
      bytesOf ("/".intercalate (names.map Path.shown)) = [Path.slash].intercalate names := by
    intro names hText
    have hNames : names.map (bytesOf ∘ Path.shown) = names :=
      (List.map_congr_left fun name hName => bytesOf_shown (hText name hName)).trans
        (List.map_id names)
    rw [bytesOf_intercalate, List.map_map, hNames]
  have hSame := congrArg bytesOf h
  rw [hBytes hText, hBytes hText'] at hSame
  rw [← pieces_intercalate hNonempty hNames, hSame, pieces_intercalate hNonempty' hOthers]

end SourceScan

/-!
# Files below a root
-/

namespace SourceScan

/-- The paths of everything that the scan opens or may take below these entries can be used. -/
structure IsReadable (request : Request) (entries : Entries) : Prop where
  directories : IsWalkable request entries
  files : ∀ file ∈ FileTree.filesAmong (fun name => !isIgnored request.ignoredDirs name) entries,
    Disk.checkPath (pathBelow request.root file) = .ok ()

instance (request : Request) (entries : Entries) : Decidable (IsReadable request entries) :=
  decidable_of_iff
    (IsWalkable request entries ∧
      ∀ file ∈ FileTree.filesAmong (fun name => !isIgnored request.ignoredDirs name) entries,
        Disk.checkPath (pathBelow request.root file) = .ok ())
    ⟨fun h => ⟨h.1, h.2⟩, fun h => ⟨h.directories, h.files⟩⟩

theorem Takes.resolve_pathBelow {disk : Disk} (hSound : disk.IsSound) {request : Request}
    {patterns : List Glob.Pattern} {rootLocation file : Location} {entries : Entries}
    (hRoot : disk.resolve request.root = .ok (rootLocation, .directory entries))
    (hReadable : IsReadable request entries) (h : Takes disk request patterns rootLocation file)
    {content : Utf8.Bytes} (hFile : disk.top.at? (rootLocation ++ file) = some (.file content)) :
    disk.resolve (pathBelow request.root file) = .ok (rootLocation ++ file, .file content) := by
  have hDirectory := Disk.isIn_of_locate (Disk.resolve_eq_ok.mp hRoot)
  have hListed := (FileTree.Node.mem_filesAmong (hSound.top.of_at? hDirectory)).mpr
    ((takes_iff hSound hRoot).mp h).1
  exact Disk.resolve_eq_ok.mpr (Disk.locate_pathBelow hRoot h.covers.ne_nil
    (isFileName_of_isFile hSound h.isFile) (hReadable.files file hListed) hFile)

end SourceScan

namespace SourceFile

open SourceScan (IsReadable Takes pathBelow)

def below (root : Path) (names : Location) (bytes : Utf8.Bytes) : SourceFile :=
  ofBytes (Path.nameBelow root (pathBelow root names)) bytes

theorem below_eq (root : Path) {names : Location} (hNames : ∀ name ∈ names, Path.IsPart name)
    (bytes : Utf8.Bytes) :
    below root names bytes = ofBytes ("/".intercalate (names.map Path.shown)) bytes := by
  unfold below
  rw [SourceScan.nameBelow_pathBelow root hNames]

theorem load_pathBelow {disk : Disk} (hSound : disk.IsSound) {request : SourceScan.Request}
    {patterns : List Glob.Pattern} {rootLocation file : Location} {entries : Entries}
    (hRoot : disk.resolve request.root = .ok (rootLocation, .directory entries))
    (hReadable : IsReadable request entries) (hFile : Takes disk request patterns rootLocation file)
    {content : Utf8.Bytes} (hContent : disk.top.at? (rootLocation ++ file) = some (.file content)) :
    load disk request.root (pathBelow request.root file) =
      .ok (ofBytes ("/".intercalate (file.map Path.shown)) content) := by
  have hRead : disk.readBytes (pathBelow request.root file) = .ok content := by
    unfold Disk.readBytes
    rw [hFile.resolve_pathBelow hSound hRoot hReadable hContent]
    rfl
  have hName : Path.nameBelow request.root (pathBelow request.root file) =
      "/".intercalate (file.map Path.shown) :=
    SourceScan.nameBelow_pathBelow request.root fun name hName =>
      (SourceScan.isFileName_of_isFile hSound hFile.isFile name hName).isPart
  unfold load
  rw [hRead, hName]
  rfl

end SourceFile

/-!
# Two scans of one directory
-/

namespace SourceScan

/--
The requests ask for the same, may differ in their roots, and exclude the same places. A file at
such a place is known from both roots or from none.
-/
structure AsksSame (disk : Disk) (rootLocation : Location) (request request' : Request) :
    Prop where
  ignoredDirs : request'.ignoredDirs = request.ignoredDirs
  patterns : request'.patterns = request.patterns
  excluded : request'.excluded.filterMap disk.canonical? =
    request.excluded.filterMap disk.canonical?
  known : ∀ path ∈ request.excluded, ∀ file,
    disk.canonical? path = some (rootLocation ++ file) →
      disk.canonical? (pathBelow request'.root file) = disk.canonical? (pathBelow request.root file)

instance (disk : Disk) (rootLocation : Location) (request request' : Request) :
    Decidable (AsksSame disk rootLocation request request') :=
  decidable_of_iff
    (request'.ignoredDirs = request.ignoredDirs ∧ request'.patterns = request.patterns ∧
      request'.excluded.filterMap disk.canonical? = request.excluded.filterMap disk.canonical? ∧
      ∀ path ∈ request.excluded, ∀ place ∈ disk.canonical? path, rootLocation <+: place →
        disk.canonical? (pathBelow request'.root (place.drop rootLocation.length)) =
          disk.canonical? (pathBelow request.root (place.drop rootLocation.length)))
    ⟨by
      rintro ⟨hIgnored, hPatterns, hExcluded, hKnown⟩
      refine ⟨hIgnored, hPatterns, hExcluded, fun path hPath file hCanonical => ?_⟩
      have hSame := hKnown path hPath _ hCanonical (List.prefix_append rootLocation file)
      rwa [List.drop_left] at hSame,
    by
      rintro ⟨hIgnored, hPatterns, hExcluded, hKnown⟩
      refine ⟨hIgnored, hPatterns, hExcluded, ?_⟩
      rintro path hPath _ hCanonical ⟨file, rfl⟩
      rw [List.drop_left]
      exact hKnown path hPath file hCanonical⟩

section Roots

variable {disk : Disk} {request request' : Request} {rootLocation : Location} {entries : Entries}

theorem AsksSame.exists_excluded (h : AsksSame disk rootLocation request request')
    {place : Location} :
    (∃ path ∈ request'.excluded, disk.canonical? path = some place) ↔
      ∃ path ∈ request.excluded, disk.canonical? path = some place := by
  rw [← List.mem_filterMap, h.excluded, List.mem_filterMap]

theorem AsksSame.symm (h : AsksSame disk rootLocation request request') :
    AsksSame disk rootLocation request' request := by
  refine ⟨h.ignoredDirs.symm, h.patterns.symm, h.excluded.symm, ?_⟩
  intro path hPath file hCanonical
  rcases h.exists_excluded.mp ⟨path, hPath, hCanonical⟩ with ⟨other, hOther, hSame⟩
  exact (h.known other hOther file hSame).symm

theorem AsksSame.takes (h : AsksSame disk rootLocation request request') (hSound : disk.IsSound)
    (hRoot' : disk.resolve request'.root = .ok (rootLocation, .directory entries))
    {patterns : List Glob.Pattern} {file : Location}
    (hFile : Takes disk request patterns rootLocation file) :
    Takes disk request' patterns rootLocation file := by
  refine ⟨hFile.isFile, ⟨fun name hName => ?_, hFile.covers.name⟩, ?_⟩
  · rw [h.ignoredDirs]
    exact hFile.covers.directories name hName
  · intro hExcludes
    rcases hExcludes with ⟨path, hPath, place, hCanonical, hPlace⟩
    have hHere := eq_of_canonicalPlace?_pathBelow hSound hRoot' hFile.covers.ne_nil hFile.isFile
      (Disk.canonical?_eq_some.mp hPlace).1
    subst hHere
    rcases h.exists_excluded.mp ⟨path, hPath, hCanonical⟩ with ⟨other, hOther, hSame⟩
    rw [h.known other hOther file hSame] at hPlace
    exact hFile.notExcluded ⟨other, hOther, _, hSame, hPlace⟩

/-- From both roots the same files are found, in the same order, and kept in the same way. -/
theorem AsksSame.sources (h : AsksSame disk rootLocation request request') (hSound : disk.IsSound)
    (hRoot : disk.resolve request.root = .ok (rootLocation, .directory entries))
    (hRoot' : disk.resolve request'.root = .ok (rootLocation, .directory entries))
    (hReadable : IsReadable request entries) (hReadable' : IsReadable request' entries)
    {files : List SourceFile}
    (hSources : ∃ paths, find disk request = .ok paths ∧
      SourceFile.loadAll disk request.root paths = .ok files) :
    ∃ paths, find disk request' = .ok paths ∧
      SourceFile.loadAll disk request'.root paths = .ok files := by
  rcases hSources with ⟨paths, hFind, hLoad⟩
  rcases exists_finds hSound hFind with
    ⟨location, inner, patterns, found, hResolve, hPatterns, _, hFound, rfl⟩
  cases hRoot.symm.trans hResolve
  rw [← h.patterns] at hPatterns
  rcases find_of_root hSound hRoot' hPatterns hReadable'.directories with
    ⟨found', hFound', hFind'⟩
  cases hFound.unique hFound' fun _ => ⟨h.takes hSound hRoot', h.symm.takes hSound hRoot⟩
  refine ⟨_, hFind', ?_⟩
  -- behind both roots the file is kept under the names below them
  have hEach : ∀ file ∈ found,
      SourceFile.load disk request'.root (pathBelow request'.root file) =
        SourceFile.load disk request.root (pathBelow request.root file) := by
    intro file hMem
    have hTakes := (hFound.mem_iff file).mp hMem
    rcases hTakes.isFile with ⟨content, hContent⟩
    rw [SourceFile.load_pathBelow hSound hRoot hReadable hTakes hContent,
      SourceFile.load_pathBelow hSound hRoot' hReadable' (h.takes hSound hRoot' hTakes) hContent]
  unfold SourceFile.loadAll at hLoad ⊢
  rw [List.mapM_map] at hLoad ⊢
  rw [← hLoad]
  exact mapM_eq_of_forall hEach

end Roots

/-- Different files of one scan get different names, as far as their names are texts. -/
theorem inj_nameBelow_of_find {disk : Disk} (hSound : disk.IsSound) {request : Request}
    {paths : List Path} (hFind : find disk request = .ok paths) :
    ∃ files : List Location, paths = files.map (pathBelow request.root) ∧
      ∀ file ∈ files, ∀ other ∈ files, IsText file → IsText other →
        Path.nameBelow request.root (pathBelow request.root file) =
            Path.nameBelow request.root (pathBelow request.root other) →
          file = other := by
  rcases exists_finds hSound hFind with ⟨_, _, _, files, _, _, _, hFound, rfl⟩
  refine ⟨files, rfl, ?_⟩
  intro file hFile other hOther hText hText' hSame
  have hTakes := (hFound.mem_iff file).mp hFile
  have hTakes' := (hFound.mem_iff other).mp hOther
  have hNames := isFileName_of_isFile hSound hTakes.isFile
  have hNames' := isFileName_of_isFile hSound hTakes'.isFile
  rw [nameBelow_pathBelow _ fun name hName => (hNames name hName).isPart,
    nameBelow_pathBelow _ fun name hName => (hNames' name hName).isPart] at hSame
  exact eq_of_intercalate_shown_eq hTakes.covers.ne_nil hTakes'.covers.ne_nil
    (fun name hName => (hNames name hName).noSlash)
    (fun name hName => (hNames' name hName).noSlash) hText hText' hSame

end SourceScan
end CatalogAudit
