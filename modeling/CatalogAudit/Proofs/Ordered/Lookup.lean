import CatalogAudit.Ordered.Map
import Mathlib.Data.List.Sort

/-!
# Maps and their lookups

A map has an entry for a key exactly if the lookup finds it, so two maps with the same lookups are
equal. In a map made from entries with different keys each of them is found, in whatever order they
have come.
-/

namespace CatalogAudit
namespace SortedMap

/-!
# Entries
-/

section Entries

variable {κ α : Type} [LT κ] [DecidableEq κ] [LE κ] [Std.LawfulOrderLT κ]

theorem lookup_eq_some_iff [BEq κ] [LawfulBEq κ] {k : κ} {v : α} {entries : List (κ × α)}
    (h : entries.Pairwise (fun a b => a.1 < b.1)) :
    entries.lookup k = some v ↔ (k, v) ∈ entries := by
  induction entries with
  | nil => simp
  | cons head rest ih =>
      obtain ⟨k', v'⟩ := head
      obtain ⟨hHead, hTail⟩ := List.pairwise_cons.mp h
      by_cases hKey : k = k'
      · subst hKey
        have hRest : (k, v) ∉ rest := fun hMem => Std.lt_irrefl (hHead (k, v) hMem)
        simp [hRest, eq_comm]
      · have hBeq : (k == k') = false := by simpa using hKey
        rw [List.lookup_cons, hBeq]
        simp [ih hTail, hKey]

theorem get?_eq_some_iff {m : SortedMap κ α} {k : κ} {v : α} :
    m.get? k = some v ↔ (k, v) ∈ m.entries :=
  lookup_eq_some_iff m.ascending

theorem ext_get? {m n : SortedMap κ α} (h : ∀ k, m.get? k = n.get? k) : m = n := by
  have hIrrefl : Std.Irrefl (fun a b : κ × α => a.1 < b.1) := ⟨fun _ => Std.lt_irrefl⟩
  have hAntisymm : Std.Antisymm (fun a b : κ × α => a.1 < b.1) :=
    ⟨fun _ _ hLess hGreater => absurd hGreater (Std.not_gt_of_lt hLess)⟩
  have hEntries : m.entries = n.entries := by
    apply m.ascending.eq_of_mem_iff n.ascending
    intro entry
    rw [← get?_eq_some_iff, h, get?_eq_some_iff]
  cases m
  cases n
  cases hEntries
  rfl

end Entries

/-!
# Maps from entries in any order
-/

section Making

variable {κ α : Type} [LT κ] [DecidableEq κ] [DecidableLT κ] [LE κ] [Std.IsLinearOrder κ]
  [Std.LawfulOrderLT κ]

theorem get?_foldl_set (m : SortedMap κ α) {entries : List (κ × α)}
    (h : (entries.map (·.1)).Nodup) {k : κ} {v : α} :
    (entries.foldl (fun m entry => m.set entry.1 entry.2) m).get? k = some v ↔
      (k, v) ∈ entries ∨ k ∉ entries.map (·.1) ∧ m.get? k = some v := by
  induction entries generalizing m with
  | nil => simp
  | cons entry rest ih =>
      obtain ⟨k', v'⟩ := entry
      obtain ⟨hHead, hTail⟩ := List.nodup_cons.mp h
      have hNew : ∀ v, (k', v) ∉ rest := by
        intro v hMem
        exact hHead (List.mem_map.mpr ⟨(k', v), hMem, rfl⟩)
      rw [List.foldl_cons, ih (m.set k' v') hTail, get?_set]
      by_cases hKey : k = k'
      · subst hKey
        simp [hNew, hHead, eq_comm]
      · simp [hKey]

theorem get?_ofList {entries : List (κ × α)} (h : (entries.map (·.1)).Nodup) {k : κ} {v : α} :
    (ofList entries).get? k = some v ↔ (k, v) ∈ entries := by
  unfold ofList
  rw [get?_foldl_set empty h]
  simp

end Making

/-!
# Mapped values
-/

section Values

variable {κ α β : Type} [LT κ] [DecidableEq κ]

theorem get?_mapValues (f : κ → α → β) (m : SortedMap κ α) (k : κ) :
    (m.mapValues f).get? k = (m.get? k).map (f k) := by
  show (m.entries.map fun entry => (entry.1, f entry.1 entry.2)).lookup k =
    (m.entries.lookup k).map (f k)
  induction m.entries with
  | nil => rfl
  | cons entry rest ih =>
      obtain ⟨k', v⟩ := entry
      by_cases hKey : k = k'
      · subst hKey
        simp
      · have hBeq : (k == k') = false := by simpa using hKey
        rw [List.map_cons, List.lookup_cons, List.lookup_cons, hBeq]
        exact ih

end Values

end SortedMap
end CatalogAudit
