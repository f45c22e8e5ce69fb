import CatalogAudit.Usage.Passes

/-!
# One pass over the sources

What a pass leaves behind, said by the keys and not by the search that finds them. A candidate
survives if no file is taken to hold it, and a file is taken to hold a key if the cache says so or
if its content does.
-/

namespace CatalogAudit

def SourceFile.Contains (file : SourceFile) (key : String) : Prop :=
  key.toList <:+: file.content.toList

theorem SourceFile.occursIn_content {file : SourceFile} {key : String} :
    Text.occursIn key.toList file.content.toList = true ↔ file.Contains key :=
  Text.occursIn_iff

/-- A file that contains a key contains every shorter beginning of it. -/
theorem SourceFile.contains_dropLast {file : SourceFile} {key : String}
    (h : file.Contains key) : file.Contains (KeyPath.dropLast key) := by
  have hPrefix := (KeyPath.initial_isPrefix key.toList).isInfix
  rw [← KeyPath.toList_dropLast] at hPrefix
  exact hPrefix.trans h

namespace Usage

def Absent (files : List SourceFile) (key : String) : Prop :=
  ∀ file ∈ files, ¬file.Contains key

theorem absent_of_absent_dropLast {files : List SourceFile} {key : String}
    (h : Absent files (KeyPath.dropLast key)) : Absent files key := by
  intro file hFile hContains
  exact h file hFile (SourceFile.contains_dropLast hContains)

/-- The cache, if there is one, vouches for the key in the file as it is now. -/
def Confirms (cache : Option MatchCache) (file : SourceFile) (key : String) : Prop :=
  ∃ keys, cache.bind (·.trusted? file.name file.hash) = some keys ∧ key ∈ keys

theorem not_confirms_none {file : SourceFile} {key : String} : ¬Confirms none file key := by
  intro h
  rcases h with ⟨keys, hKeys, _⟩
  cases hKeys

/-!
# Searching one file

Every candidate is looked for in exactly one of two places. It is cached if the cache vouches for
it, and otherwise it is found if the content holds it.
-/

theorem isKnown_iff {cache : Option MatchCache} {file : SourceFile} {key : String} :
    (cache.bind (·.trusted? file.name file.hash)).any (fun keys => key ∈ keys) = true ↔
      Confirms cache file key := by
  unfold Confirms
  cases cache.bind (·.trusted? file.name file.hash) with
  | none => simp
  | some keys => simp

theorem mem_cached_searchFile {candidates : KeySet} {cache : Option MatchCache}
    {file : SourceFile} {key : String} :
    key ∈ (searchFile candidates cache file).cached ↔
      key ∈ candidates ∧ Confirms cache file key := by
  rw [← isKnown_iff]
  exact List.mem_filter

theorem mem_found_searchFile {candidates : KeySet} {cache : Option MatchCache}
    {file : SourceFile} {key : String} :
    key ∈ (searchFile candidates cache file).found ↔
      key ∈ candidates ∧ ¬Confirms cache file key ∧ file.Contains key := by
  rw [← isKnown_iff, ← SourceFile.occursIn_content]
  simp [searchFile, SortedSet.mem_def]

theorem hits_searchFile_iff {candidates : KeySet} {cache : Option MatchCache}
    {file : SourceFile} {key : String} :
    (searchFile candidates cache file).hits key = true ↔
      key ∈ candidates ∧ (Confirms cache file key ∨ file.Contains key) := by
  simp only [FileSearch.hits, Bool.or_eq_true, List.contains_iff_mem, mem_cached_searchFile,
    mem_found_searchFile]
  constructor
  · intro h
    rcases h with ⟨hKey, hConfirms⟩ | ⟨hKey, _, hContains⟩
    · exact ⟨hKey, Or.inl hConfirms⟩
    · exact ⟨hKey, Or.inr hContains⟩
  · intro h
    rcases h with ⟨hKey, hHit⟩
    by_cases hConfirms : Confirms cache file key
    · exact Or.inl ⟨hKey, hConfirms⟩
    · exact Or.inr ⟨hKey, hConfirms, hHit.resolve_left hConfirms⟩

/-!
# Survivors
-/

theorem mem_survivors_search {candidates : KeySet} {files : List SourceFile}
    {cache : Option MatchCache} {key : String} :
    key ∈ (search candidates files cache).survivors ↔
      key ∈ candidates ∧ Absent files key ∧ ∀ file ∈ files, ¬Confirms cache file key := by
  have hHit : (files.map (searchFile candidates cache)).any (·.hits key) = true ↔
      ∃ file ∈ files, key ∈ candidates ∧ (Confirms cache file key ∨ file.Contains key) := by
    simp [hits_searchFile_iff]
  simp only [search, SortedSet.mem_filter, Bool.not_eq_true', ← Bool.not_eq_true, hHit]
  constructor
  · intro h
    rcases h with ⟨hKey, hNone⟩
    refine ⟨hKey, ?_, ?_⟩
    · intro file hFile hContains
      exact hNone ⟨file, hFile, hKey, Or.inr hContains⟩
    · intro file hFile hConfirms
      exact hNone ⟨file, hFile, hKey, Or.inl hConfirms⟩
  · intro h
    rcases h with ⟨hKey, hAbsent, hUnconfirmed⟩
    refine ⟨hKey, ?_⟩
    intro hSome
    rcases hSome with ⟨file, hFile, _, hConfirms | hContains⟩
    · exact hUnconfirmed file hFile hConfirms
    · exact hAbsent file hFile hContains

/-- Without a cache the contents alone decide. -/
theorem mem_survivors_search_none {candidates : KeySet} {files : List SourceFile} {key : String} :
    key ∈ (search candidates files none).survivors ↔ key ∈ candidates ∧ Absent files key := by
  rw [mem_survivors_search]
  constructor
  · intro h
    exact ⟨h.1, h.2.1⟩
  · intro h
    exact ⟨h.1, h.2, fun _ _ => not_confirms_none⟩

theorem mem_shortened {keys : KeySet} {key : String} :
    key ∈ shortened keys ↔ key ≠ "" ∧ ∃ longer ∈ keys, key = KeyPath.dropLast longer := by
  unfold shortened
  rw [SortedSet.mem_ofList, List.mem_filter, List.mem_map]
  constructor
  · intro h
    rcases h with ⟨⟨longer, hLonger, hEq⟩, hNonempty⟩
    exact ⟨by simpa using hNonempty, longer, hLonger, hEq.symm⟩
  · intro h
    rcases h with ⟨hNonempty, longer, hLonger, hEq⟩
    exact ⟨⟨longer, hLonger, hEq.symm⟩, by simpa using hNonempty⟩

end Usage
end CatalogAudit
