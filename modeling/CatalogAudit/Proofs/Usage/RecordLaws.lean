import CatalogAudit.Proofs.Usage.Records

/-!
# Reading and writing a record

A record is read for what is trusted in it, and it is reset before anything is added to it. Both
sides ask the same question, whether the digest is the same and some key is known. So a reset shows
only where nothing is trusted, and matches for the same content add up in any order.
-/

namespace CatalogAudit
namespace MatchCache

/-!
# Trust and reset
-/

theorem trusted?_eq_some_iff {cache : MatchCache} {name hash : String} {keys : KeySet} :
    cache.trusted? name hash = some keys ↔
      cache.get? name = some ⟨hash, keys⟩ ∧ keys.isEmpty = false := by
  unfold trusted?
  cases cache.get? name with
  | none => simp
  | some record =>
      obtain ⟨old, known⟩ := record
      constructor
      · intro h
        simp only at h
        split at h
        · rename_i hTrust
          cases h
          exact ⟨by rw [hTrust.1], by simpa using hTrust.2⟩
        · cases h
      · intro h
        cases h.1
        simp [h.2]

theorem get?_refresh (cache : MatchCache) (name hash other : String) :
    (cache.refresh name hash).get? other =
      if other = name then some (cache.usableRecord name hash) else cache.get? other :=
  SortedMap.get?_set cache.records name _ other

theorem refresh_eq_self {cache : MatchCache} {name hash : String}
    (h : cache.get? name = some (cache.usableRecord name hash)) :
    cache.refresh name hash = cache := by
  refine ext_get? (by rfl) ?_
  intro other
  rw [get?_refresh]
  split
  · rename_i hOther
    rw [hOther, h]
  · rfl

/-!
# Matches for the same content, and for other content
-/

/-- Of matches that are added one after the other, a second reset takes nothing away. -/
theorem remember_remember (cache : MatchCache) (name hash : String) (found more : List String) :
    (cache.remember name hash found).remember name hash more =
      cache.remember name hash (found ++ more) := by
  have hKeys : ((cache.remember name hash found).usableRecord name hash).keys.insertAll more =
      (cache.usableRecord name hash).keys.insertAll (found ++ more) := by
    apply SortedSet.ext_mem
    intro key
    rw [SortedSet.mem_insertAll, SortedSet.mem_insertAll, mem_keys_usableRecord,
      mem_keys_usableRecord, holds_remember_self, List.mem_append]
    grind
  refine ext_get? (by rfl) ?_
  intro other
  rw [get?_remember, get?_remember, get?_remember, hKeys]
  split
  · rfl
  · rfl

theorem remember_congr {found more : List String} (h : ∀ key, key ∈ found ↔ key ∈ more)
    (cache : MatchCache) (name hash : String) :
    cache.remember name hash found = cache.remember name hash more := by
  have hKeys : (cache.usableRecord name hash).keys.insertAll found =
      (cache.usableRecord name hash).keys.insertAll more := by
    apply SortedSet.ext_mem
    intro key
    rw [SortedSet.mem_insertAll, SortedSet.mem_insertAll, h]
  refine ext_get? (by rfl) ?_
  intro other
  rw [get?_remember, get?_remember, hKeys]

theorem get?_remember_of_ne {hash hash' : String} (h : hash ≠ hash') (cache : MatchCache)
    (name : String) (found more : List String) :
    ((cache.remember name hash found).remember name hash' more).get? name =
      some ⟨hash', .ofList more⟩ := by
  have hKeys : ((cache.remember name hash found).usableRecord name hash').keys.insertAll more =
      .ofList more := by
    apply SortedSet.ext_mem
    intro key
    rw [SortedSet.mem_insertAll, mem_keys_usableRecord, holds_remember_self, SortedSet.mem_ofList]
    have hOther : ¬hash' = hash := fun hEq => h hEq.symm
    simp [hOther]
  rw [get?_remember, if_pos rfl, hKeys]

/-!
# Both sides
-/

/-- Reading and writing the record of a file agree on what counts as known. -/
structure ReadsAsWritten (cache : MatchCache) (name hash : String) : Prop where
  /-- The record that a reset hands out is the one that it has stored. -/
  stored : (cache.refresh name hash).get? name = some (cache.usableRecord name hash)
  trusted_iff : ∀ keys, cache.trusted? name hash = some keys ↔
    cache.refresh name hash = cache ∧ cache.usableRecord name hash = ⟨hash, keys⟩ ∧
      keys.isEmpty = false
  reset : cache.trusted? name hash = none →
    cache.usableRecord name hash = ⟨hash, .empty⟩ ∧
      ∀ other, other ≠ name → (cache.refresh name hash).get? other = cache.get? other
  together : ∀ found more,
    (cache.remember name hash found).remember name hash more =
      cache.remember name hash (found ++ more)
  eitherOrder : ∀ found more,
    (cache.remember name hash found).remember name hash more =
      (cache.remember name hash more).remember name hash found
  apart : ∀ other, name ≠ other → ∀ hash' found more,
    (cache.remember name hash found).remember other hash' more =
      (cache.remember other hash' more).remember name hash found
  replaced : ∀ hash', hash ≠ hash' → ∀ found more,
    ((cache.remember name hash found).remember name hash' more).get? name =
      some ⟨hash', .ofList more⟩

/--
What is trusted is what a reset leaves alone, and where nothing is trusted the reset leaves no key
and touches no other record. Matches for the same content can be added together or one after the
other, matches for different files in any order, and matches for other content start afresh.
-/
theorem readsAsWritten (cache : MatchCache) (name hash : String) :
    cache.ReadsAsWritten name hash := by
  have hStored : (cache.refresh name hash).get? name = some (cache.usableRecord name hash) := by
    rw [get?_refresh, if_pos rfl]
  constructor
  case stored => exact hStored
  case trusted_iff =>
    intro keys
    rw [trusted?_eq_some_iff]
    constructor
    · intro h
      have hRecord : cache.usableRecord name hash = ⟨hash, keys⟩ := by
        rw [usableRecord_eq, trusted?_eq_some_iff.mpr h, Option.getD_some]
      exact ⟨refresh_eq_self (by rw [h.1, hRecord]), hRecord, h.2⟩
    · intro h
      rcases h with ⟨hSame, hRecord, hKnown⟩
      rw [hSame, hRecord] at hStored
      exact ⟨hStored, hKnown⟩
  case reset =>
    intro hNone
    refine ⟨by rw [usableRecord_eq, hNone, Option.getD_none], ?_⟩
    intro other hOther
    rw [get?_refresh, if_neg hOther]
  case together => exact remember_remember cache name hash
  case eitherOrder =>
    intro found more
    rw [remember_remember, remember_remember]
    apply remember_congr
    intro key
    rw [List.mem_append, List.mem_append, or_comm]
  case apart =>
    intro other hOther hash' found more
    exact remember_comm cache hOther hash hash' found more
  case replaced =>
    intro hash' hHash found more
    exact get?_remember_of_ne hHash cache name found more

end MatchCache
end CatalogAudit
