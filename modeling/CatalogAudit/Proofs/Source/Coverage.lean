import CatalogAudit.Proofs.Source.Scan

/-!
# Which files are scanned

A scan whose directories can be opened finds each file once that is reached from the root through
directories with other names than the ignored ones, has a name that some pattern matches, and is not
excluded. That a file is excluded is known from canonical paths, which cannot be found where the
absolute paths get too long.
-/

namespace CatalogAudit
namespace SourceScan

open FileTree (Disk Entries Location Name)

/-!
# What is asked of a file
-/

/-- A file strictly below the root, on a way of directories that are not ignored. -/
structure IsReached (disk : Disk) (request : Request) (rootLocation file : Location) : Prop where
  below : file ≠ []
  isFile : ∃ content, disk.top.at? (rootLocation ++ file) = some (.file content)
  way : ∀ front, front <+: file → front ≠ file → disk.top.IsDirectoryAt (rootLocation ++ front)
  directories : ∀ name ∈ file.dropLast, ∀ text, textOf? name = some text →
    text ∉ request.ignoredDirs

structure IsCandidate (disk : Disk) (request : Request) (rootLocation file : Location) : Prop
    extends IsReached disk request rootLocation file where
  name : ∃ name text, file.getLast? = some name ∧ textOf? name = some text ∧
    ∃ source ∈ request.patterns, ∃ pattern, Glob.parse source = .ok pattern ∧
      pattern.admits text = true

/-- The path can be followed to the place, or is only found to have the canonical path of it. -/
def LeadsTo (disk : Disk) (path : Path) (place : Location) : Prop :=
  disk.place? path = some place ∨ disk.canonicalPlace? path = some place

/-- The candidate is at no place that an excluded path leads to. -/
structure IsScanned (disk : Disk) (request : Request) (rootLocation file : Location) : Prop
    extends IsCandidate disk request rootLocation file where
  notExcluded : ∀ path ∈ request.excluded, ¬LeadsTo disk path (rootLocation ++ file)

/-- Where an excluded path leads to a candidate, the canonical paths of both can be found. -/
def KnowsExcluded (disk : Disk) (request : Request) (rootLocation : Location) : Prop :=
  ∀ path ∈ request.excluded, ∀ file, IsCandidate disk request rootLocation file →
    LeadsTo disk path (rootLocation ++ file) →
      disk.canonicalPlace? path = some (rootLocation ++ file) ∧
        disk.canonicalPlace? (pathBelow request.root file) = some (rootLocation ++ file)

theorem isIgnored_eq_false {ignoredDirs : List String} {name : Name} :
    isIgnored ignoredDirs name = false ↔
      ∀ text, textOf? name = some text → text ∉ ignoredDirs := by
  unfold isIgnored
  cases textOf? name with
  | none => simp
  | some text => simp

/-!
# Patterns
-/

theorem mem_of_compilePatterns {texts : List String} {patterns : List Glob.Pattern}
    (h : compilePatterns texts = .ok patterns) {pattern : Glob.Pattern} :
    pattern ∈ patterns ↔ ∃ text ∈ texts, Glob.parse text = .ok pattern := by
  rw [mem_of_mapM_eq_ok h]
  simp only [withContext_eq_ok]

theorem exists_compilePatterns {texts : List String}
    (h : ∀ text ∈ texts, ∃ pattern, Glob.parse text = .ok pattern) :
    ∃ patterns, compilePatterns texts = .ok patterns := by
  refine exists_mapM_iff.mpr fun text hText => ?_
  rcases h text hText with ⟨pattern, hPattern⟩
  exact ⟨pattern, withContext_eq_ok.mpr hPattern⟩

theorem isSource_eq_true {texts : List String} {patterns : List Glob.Pattern}
    (h : compilePatterns texts = .ok patterns) {name : Name} :
    isSource patterns name = true ↔
      ∃ text, textOf? name = some text ∧ ∃ source ∈ texts, ∃ pattern,
        Glob.parse source = .ok pattern ∧ pattern.admits text = true := by
  unfold isSource
  rw [Option.any_eq_true]
  refine exists_congr fun text => and_congr_right fun _ => ?_
  rw [List.any_eq_true]
  simp only [mem_of_compilePatterns h]
  constructor
  · intro hAdmits
    rcases hAdmits with ⟨pattern, ⟨source, hSource, hParse⟩, hAdmits⟩
    exact ⟨source, hSource, pattern, hParse, hAdmits⟩
  · intro hAdmits
    rcases hAdmits with ⟨source, hSource, pattern, hParse, hAdmits⟩
    exact ⟨pattern, ⟨source, hSource, hParse⟩, hAdmits⟩

/-!
# Found files
-/

section Root

variable {disk : Disk} {request : Request} {rootLocation file : Location} {entries : Entries}

theorem Request.Covers.isReached {patterns : List Glob.Pattern} (h : request.Covers patterns file)
    (hFile : ∃ content, disk.top.at? (rootLocation ++ file) = some (.file content)) :
    IsReached disk request rootLocation file := by
  constructor
  · exact h.ne_nil
  · exact hFile
  · intro front hFront hOther
    rcases hFront with ⟨behind, rfl⟩
    rcases hFile with ⟨content, hFile⟩
    have hBehind : behind ≠ [] := fun hNil => hOther (by rw [hNil, List.append_nil])
    rw [← List.append_assoc] at hFile
    exact FileTree.Node.isDirectoryAt_of_append hBehind hFile
  · exact fun name hName => isIgnored_eq_false.mp (h.directories name hName)

theorem covers_iff_isCandidate {patterns : List Glob.Pattern}
    (hPatterns : compilePatterns request.patterns = .ok patterns)
    (hFile : ∃ content, disk.top.at? (rootLocation ++ file) = some (.file content)) :
    request.Covers patterns file ↔ IsCandidate disk request rootLocation file := by
  constructor
  · intro h
    rcases h.name with ⟨name, hLast, hSource⟩
    rcases (isSource_eq_true hPatterns).mp hSource with ⟨text, hText, hMatch⟩
    exact ⟨h.isReached hFile, name, text, hLast, hText, hMatch⟩
  · intro h
    rcases h.name with ⟨name, text, hLast, hText, hMatch⟩
    have hSource := (isSource_eq_true hPatterns).mpr ⟨text, hText, hMatch⟩
    exact ⟨fun name hName => isIgnored_eq_false.mpr (h.directories name hName), name, hLast,
      hSource⟩

section Known

variable (hSound : disk.IsSound)
  (hRoot : disk.resolve request.root = .ok (rootLocation, .directory entries))
  (hKnown : KnowsExcluded disk request rootLocation)
include hSound hRoot hKnown

theorem excludes_iff (hFile : IsCandidate disk request rootLocation file) :
    Excludes disk request file ↔
      ∃ path ∈ request.excluded, LeadsTo disk path (rootLocation ++ file) := by
  constructor
  · intro h
    rcases h with ⟨path, hPath, place, hCanonical, hPlace⟩
    have hHere := eq_of_canonicalPlace?_pathBelow hSound hRoot hFile.below hFile.isFile
      (Disk.canonical?_eq_some.mp hPlace).1
    rw [hHere] at hCanonical
    exact ⟨path, hPath, Or.inr (Disk.canonical?_eq_some.mp hCanonical).1⟩
  · intro h
    rcases h with ⟨path, hPath, hLeads⟩
    rcases hKnown path hPath file hFile hLeads with ⟨hCanonical, hPlace⟩
    rcases hFile.isFile with ⟨content, hContent⟩
    have hThere : (disk.top.at? (rootLocation ++ file)).isSome = true := by
      rw [hContent]
      rfl
    exact ⟨path, hPath, _, Disk.canonical?_eq_some.mpr ⟨hCanonical, hThere⟩,
      Disk.canonical?_eq_some.mpr ⟨hPlace, hThere⟩⟩

theorem takes_iff_isScanned {patterns : List Glob.Pattern}
    (hPatterns : compilePatterns request.patterns = .ok patterns) :
    Takes disk request patterns rootLocation file ↔
      IsScanned disk request rootLocation file := by
  constructor
  · intro h
    have hFile := (covers_iff_isCandidate hPatterns h.isFile).mp h.covers
    refine ⟨hFile, fun path hPath hLeads => h.notExcluded ?_⟩
    exact (excludes_iff hSound hRoot hKnown hFile).mpr ⟨path, hPath, hLeads⟩
  · intro h
    refine ⟨h.isFile, (covers_iff_isCandidate hPatterns h.isFile).mpr h.toIsCandidate, ?_⟩
    intro hExcludes
    rcases (excludes_iff hSound hRoot hKnown h.toIsCandidate).mp hExcludes with
      ⟨path, hPath, hLeads⟩
    exact h.notExcluded path hPath hLeads

end Known

theorem IsReached.isFileName_of_mem (hSound : disk.IsSound)
    (h : IsReached disk request rootLocation file) : ∀ name ∈ file, FileTree.IsFileName name :=
  isFileName_of_isFile hSound h.isFile

/-- Different locations below a root have different paths. -/
theorem eq_of_pathBelow_eq {root : Path} {names others : Location}
    (hNames : ∀ name ∈ names, FileTree.IsFileName name)
    (hOthers : ∀ name ∈ others, FileTree.IsFileName name)
    (h : pathBelow root names = pathBelow root others) : names = others := by
  have hComponents := congrArg Path.components h
  rw [components_pathBelow root fun name hName => (hNames name hName).isPart,
    components_pathBelow root fun name hName => (hOthers name hName).isPart,
    List.append_cancel_left_eq] at hComponents
  exact (List.map_injective_iff.mpr fun _ _ hName => Path.Component.name.inj hName) hComponents

/--
A scan whose directories can be opened succeeds with the paths of exactly the files that it is meant
to find, each once. The names that are compared first let no excluded file pass. For that it has to
be known which files are excluded.
-/
theorem find_of_isWalkable (hSound : disk.IsSound)
    (hRoot : disk.resolve request.root = .ok (rootLocation, .directory entries))
    (hPatterns : ∀ text ∈ request.patterns, ∃ pattern, Glob.parse text = .ok pattern)
    (hWalk : IsWalkable request entries) (hKnown : KnowsExcluded disk request rootLocation) :
    ∃ files : List Location, find disk request = .ok (files.map (pathBelow request.root)) ∧
      (files.map (pathBelow request.root)).Nodup ∧
      (∀ file, file ∈ files ↔ IsScanned disk request rootLocation file) ∧
      ∀ file, IsCandidate disk request rootLocation file → ∀ name, file.getLast? = some name →
        (isExcluded disk (request.excluded.filterMap disk.canonical?)
            (pathBelow request.root file) name = true ↔
          ∃ path ∈ request.excluded, LeadsTo disk path (rootLocation ++ file)) := by
  rcases exists_compilePatterns hPatterns with ⟨patterns, hCompiled⟩
  rcases find_of_root hSound hRoot hCompiled hWalk with ⟨files, hFiles, hFind⟩
  have hMem : ∀ file, file ∈ files ↔ IsScanned disk request rootLocation file := fun file =>
    (hFiles.mem_iff file).trans (takes_iff_isScanned hSound hRoot hKnown hCompiled)
  refine ⟨files, hFind, ?_, hMem, ?_⟩
  -- The walk meets each location once, and different locations have different paths.
  · have hNodup : files.Nodup := by
      apply hFiles.ascending.imp
      rintro file other hLess rfl
      exact List.lt_irrefl file hLess
    apply hNodup.map_on
    intro file hFile other hOther hSame
    exact eq_of_pathBelow_eq (((hMem file).mp hFile).isFileName_of_mem hSound)
      (((hMem other).mp hOther).isFileName_of_mem hSound) hSame
  · exact fun file hFile name hName => (isExcluded_iff hSound hRoot hFile.isFile hName).trans
      (excludes_iff hSound hRoot hKnown hFile)

end Root

/-!
# An example

The root is a link, a file is linked twice, some names are no texts, and the excluded paths take
detours.
-/

def tangledSource : Entries := [
  (bytesOf "a.ts", .file []),
  (bytesOf "b.ts", .file []),
  (bytesOf "c.ts", .link (bytesOf "a.ts")),
  (bytesOf "dist", .directory [(bytesOf "d.ts", .file [])]),
  (bytesOf "gen", .directory [
    (bytesOf "dist", .file []), (bytesOf "e.ts", .file []), (bytesOf "up", .link (bytesOf ".."))]),
  (bytesOf "more", .link (bytesOf "gen")),
  (0xFE :: bytesOf ".ts", .file []),
  ([0xFF], .directory [(bytesOf "f.ts", .file [])])]

def tangledDisk : Disk where
  top := .directory [
    (bytesOf "app", .link (bytesOf "src/")), (bytesOf "src", .directory tangledSource)]
  cwd := [bytesOf "src"]

def tangledRequest : Request where
  root := bytesOf "/app"
  ignoredDirs := ["dist", "src"]
  patterns := ["*.ts", "dist"]
  excluded := [bytesOf "../src/./c.ts", bytesOf "more/up/gen/e.ts", bytesOf "missing.ts"]

theorem knowsExcluded_tangledDisk :
    KnowsExcluded tangledDisk tangledRequest [bytesOf "src"] := by
  have hBoth : ∀ path ∈ tangledRequest.excluded,
      (∀ place ∈ tangledDisk.place? path, tangledDisk.canonicalPlace? path = some place ∧
        tangledDisk.canonicalPlace? (pathBelow tangledRequest.root place.tail) = some place) ∧
      ∀ place ∈ tangledDisk.canonicalPlace? path, tangledDisk.canonicalPlace? path = some place ∧
        tangledDisk.canonicalPlace? (pathBelow tangledRequest.root place.tail) = some place := by
    decide +kernel
  intro path hPath file _ hLeads
  exact hLeads.elim ((hBoth path hPath).1 _) ((hBoth path hPath).2 _)

theorem find_tangledDisk :
    tangledDisk.IsSound ∧
      find tangledDisk tangledRequest =
        .ok [bytesOf "/app/b.ts", bytesOf "/app/gen/dist",
          bytesOf "/app/" ++ 0xFF :: bytesOf "/f.ts"] ∧
      ∃ files : List Location,
        find tangledDisk tangledRequest = .ok (files.map (pathBelow tangledRequest.root)) ∧
          (files.map (pathBelow tangledRequest.root)).Nodup ∧
          (∀ file, file ∈ files ↔ IsScanned tangledDisk tangledRequest [bytesOf "src"] file) ∧
          ∀ file, IsCandidate tangledDisk tangledRequest [bytesOf "src"] file →
            ∀ name, file.getLast? = some name →
              (isExcluded tangledDisk (tangledRequest.excluded.filterMap tangledDisk.canonical?)
                  (pathBelow tangledRequest.root file) name = true ↔
                ∃ path ∈ tangledRequest.excluded,
                  LeadsTo tangledDisk path ([bytesOf "src"] ++ file)) := by
  have hSound : tangledDisk.IsSound := by
    decide +kernel
  have hRoot : tangledDisk.resolve tangledRequest.root =
      .ok ([bytesOf "src"], .directory tangledSource) := by
    rfl
  have hPatterns : ∀ text ∈ tangledRequest.patterns,
      ∃ pattern, Glob.parse text = .ok pattern :=
    List.forall_mem_cons.mpr ⟨⟨_, rfl⟩, List.forall_mem_singleton.mpr ⟨_, rfl⟩⟩
  have hWalk : IsWalkable tangledRequest tangledSource := by
    decide +kernel
  exact ⟨hSound, by decide +kernel,
    find_of_isWalkable hSound hRoot hPatterns hWalk knowsExcluded_tangledDisk⟩

/-!
# A deep directory

In a directory that is almost as deep as a path can be long, an entry with a long name is found by
its relative path, but its absolute path is too long. So there are paths whose canonical path cannot
be found although the file can be opened, and such an excluded path is dropped.
-/

def longName : Name :=
  List.replicate FileTree.maxNameLength 0x64

def nested : Nat → FileTree.Node → FileTree.Node
  | 0, node => node
  | depth + 1, node => .directory [(longName, nested depth node)]

def deepLocation : Location :=
  List.replicate 15 longName

def deepDisk (entries : Entries) : Disk where
  top := nested 15 (.directory entries)
  cwd := deepLocation

/-- The deep directory, by way of a link with a long name to a directory in it. -/
def wayAround : Path :=
  longName ++ bytesOf "/.."

def deepRequest : Request where
  root := [Path.dot]
  ignoredDirs := []
  patterns := ["*.ts"]
  excluded := [Path.join wayAround (bytesOf "a.ts")]

/-- The file is found although an excluded path leads to it, by which it can even be read. -/
theorem find_deepDisk :
    let disk := deepDisk [
      (bytesOf "a.ts", .file []), (longName, .link (bytesOf "sub")),
      (bytesOf "sub", .directory [])]
    let file := pathBelow deepRequest.root [bytesOf "a.ts"]
    let place := deepLocation ++ [bytesOf "a.ts"]
    disk.IsSound ∧
      (∀ path ∈ deepRequest.excluded, disk.readBytes path = .ok [] ∧
        disk.place? path = some place ∧ disk.canonical? path = none) ∧
      disk.place? file = some place ∧ disk.canonical? file = some place ∧
      find disk deepRequest = .ok [file] := by
  decide +kernel

end SourceScan
end CatalogAudit
