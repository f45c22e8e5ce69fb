import CatalogAudit.Proofs.Ordered.Lookup
import CatalogAudit.Proofs.Usage.OnePass

/-!
# What the cache holds

A cache is looked at through the keys that it holds for a name and a digest. Trust, new matches,
and the removal of files are all described by what is held before and after.
-/

namespace CatalogAudit
namespace MatchCache

/-- The cache has the key on record for the file of this name with this digest. -/
def Holds (cache : MatchCache) (name hash key : String) : Prop :=
  ∃ record, cache.get? name = some record ∧ record.hash = hash ∧ key ∈ record.keys

theorem not_holds_new {path : Path} {name hash key : String} : ¬(new path).Holds name hash key := by
  intro h
  rcases h with ⟨record, hRecord, _⟩
  cases hRecord

/-!
# Trust
-/

theorem trusted?_iff {cache : MatchCache} {name hash key : String} :
    (∃ keys, cache.trusted? name hash = some keys ∧ key ∈ keys) ↔ cache.Holds name hash key := by
  unfold trusted? Holds
  cases cache.get? name with
  | none => simp
  | some record =>
      constructor
      · intro h
        rcases h with ⟨keys, hKeys, hKey⟩
        simp only at hKeys
        split at hKeys
        · rename_i hTrust
          cases hKeys
          exact ⟨record, rfl, hTrust.1, hKey⟩
        · cases hKeys
      · intro h
        rcases h with ⟨other, hOther, hHash, hKey⟩
        cases hOther
        have hSome : record.keys.isEmpty = false := by
          rw [← Bool.not_eq_true, SortedSet.isEmpty_iff]
          intro hNone
          exact hNone key hKey
        refine ⟨record.keys, ?_, hKey⟩
        simp only [hHash, hSome, Bool.not_false, and_self, if_true]

/-!
# New matches
-/

/-- A record is kept for what is trusted in it and is otherwise started afresh. -/
theorem usableRecord_eq (cache : MatchCache) (name hash : String) :
    cache.usableRecord name hash = ⟨hash, (cache.trusted? name hash).getD .empty⟩ := by
  unfold usableRecord trusted?
  cases cache.get? name with
  | none => rfl
  | some record =>
      obtain ⟨old, keys⟩ := record
      by_cases hHash : old = hash
      · subst hHash
        cases hEmpty : keys.isEmpty with
        | true => simp [hEmpty]
        | false => simp [hEmpty]
      · simp [hHash]

theorem mem_keys_usableRecord {cache : MatchCache} {name hash key : String} :
    key ∈ (cache.usableRecord name hash).keys ↔ cache.Holds name hash key := by
  rw [usableRecord_eq, ← trusted?_iff]
  cases cache.trusted? name hash with
  | none => simp
  | some keys => simp

theorem get?_remember (cache : MatchCache) (name hash : String) (keys : List String)
    (other : String) :
    (cache.remember name hash keys).get? other =
      if other = name then some ⟨hash, (cache.usableRecord name hash).keys.insertAll keys⟩
      else cache.get? other := by
  have hSet := SortedMap.get?_set cache.records name
    ⟨(cache.usableRecord name hash).hash, (cache.usableRecord name hash).keys.insertAll keys⟩ other
  have hHash : (cache.usableRecord name hash).hash = hash := by rw [usableRecord_eq]
  refine hSet.trans ?_
  rw [hHash]
  rfl

/-- New matches are held besides the old ones for the same content. Other content is forgotten. -/
theorem holds_remember_self {cache : MatchCache} {name hash hash' : String} {keys : List String}
    {key : String} :
    (cache.remember name hash keys).Holds name hash' key ↔
      hash' = hash ∧ (key ∈ keys ∨ cache.Holds name hash key) := by
  rw [Holds, get?_remember, if_pos rfl, ← mem_keys_usableRecord, ← SortedSet.mem_insertAll]
  constructor
  · intro h
    rcases h with ⟨record, hRecord, hHash, hKey⟩
    cases hRecord
    exact ⟨hHash.symm, hKey⟩
  · intro h
    rcases h with ⟨rfl, hKey⟩
    exact ⟨_, rfl, rfl, hKey⟩

theorem holds_remember_of_ne {cache : MatchCache} {name other hash hash' : String}
    {keys : List String} {key : String} (h : other ≠ name) :
    (cache.remember name hash keys).Holds other hash' key ↔ cache.Holds other hash' key := by
  rw [Holds, get?_remember, if_neg h]
  rfl

/-!
# New matches for different files

A file's record is found through its name alone, so it does not matter for which file new matches
are added first.
-/

theorem ext_get? {cache other : MatchCache} (hPath : cache.path = other.path)
    (hRecords : ∀ name, cache.get? name = other.get? name) : cache = other := by
  have hSame : cache.records = other.records := SortedMap.ext_get? hRecords
  cases cache
  cases other
  cases hPath
  cases hSame
  rfl

theorem usableRecord_congr {cache other : MatchCache} {name : String}
    (h : cache.get? name = other.get? name) (hash : String) :
    cache.usableRecord name hash = other.usableRecord name hash := by
  unfold usableRecord
  rw [h]

theorem remember_comm (cache : MatchCache) {name other : String} (h : name ≠ other)
    (hash hash' : String) (keys keys' : List String) :
    (cache.remember name hash keys).remember other hash' keys' =
      (cache.remember other hash' keys').remember name hash keys := by
  have hOther : (cache.remember name hash keys).usableRecord other hash' =
      cache.usableRecord other hash' := by
    apply usableRecord_congr
    rw [get?_remember, if_neg h.symm]
  have hName : (cache.remember other hash' keys').usableRecord name hash =
      cache.usableRecord name hash := by
    apply usableRecord_congr
    rw [get?_remember, if_neg h]
  refine ext_get? (by rfl) ?_
  intro asked
  simp only [get?_remember, hOther, hName]
  by_cases hAsked : asked = name
  · subst hAsked
    simp only [if_neg h]
  · simp only [if_neg hAsked]

/-!
# Files that are gone
-/

theorem get?_keepOnly (cache : MatchCache) (files : List SourceFile) (name : String) :
    (cache.keepOnly files).get? name =
      (cache.get? name).filter (fun _ => (files.map (·.name)).contains name) :=
  SortedMap.get?_filter _ cache.records name

theorem holds_of_holds_keepOnly {cache : MatchCache} {files : List SourceFile}
    {name hash key : String} (h : (cache.keepOnly files).Holds name hash key) :
    cache.Holds name hash key := by
  rcases h with ⟨record, hRecord, hRest⟩
  rw [get?_keepOnly, Option.filter_eq_some_iff] at hRecord
  exact ⟨record, hRecord.1, hRest⟩

end MatchCache

namespace Usage

theorem confirms_iff_holds {cache : MatchCache} {file : SourceFile} {key : String} :
    Confirms (some cache) file key ↔ cache.Holds file.name file.hash key :=
  MatchCache.trusted?_iff

end Usage
end CatalogAudit
