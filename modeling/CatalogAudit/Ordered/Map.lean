/-!
# Ordered maps

A finite map from a linear order, kept as a list of entries with strictly ascending keys. As with
ordered sets the list is a normal form: a map is determined by what it answers for each key.
-/

namespace CatalogAudit

structure SortedMap (κ : Type) (α : Type) [LT κ] where
  entries : List (κ × α)
  ascending : entries.Pairwise (fun a b => a.1 < b.1)

namespace SortedMap

/-!
# Ascending entries

Setting the value of a key keeps the keys ascending and replaces the old value of that key.
-/

section Setting

variable {κ α : Type} [LT κ] [DecidableLT κ]

def setAscending (k : κ) (v : α) : List (κ × α) → List (κ × α)
  | [] => [(k, v)]
  | (k', v') :: rest =>
      if k < k' then (k, v) :: (k', v') :: rest
      else if k' < k then (k', v') :: setAscending k v rest
      else (k, v) :: rest

theorem key_of_mem_setAscending {k : κ} {v : α} {entry : κ × α} {entries : List (κ × α)}
    (h : entry ∈ setAscending k v entries) : entry = (k, v) ∨ entry ∈ entries := by
  induction entries with
  | nil => simpa [setAscending] using h
  | cons head rest ih =>
      obtain ⟨k', v'⟩ := head
      unfold setAscending at h
      split at h
      · simpa using h
      · split at h
        · rcases List.mem_cons.mp h with hEq | hMem
          · exact Or.inr (hEq ▸ List.mem_cons_self ..)
          · exact (ih hMem).imp_right (List.mem_cons_of_mem _)
        · rcases List.mem_cons.mp h with hEq | hMem
          · exact Or.inl hEq
          · exact Or.inr (List.mem_cons_of_mem _ hMem)

variable [LE κ] [Std.IsLinearOrder κ] [Std.LawfulOrderLT κ]

theorem pairwise_setAscending (k : κ) (v : α) {entries : List (κ × α)}
    (h : entries.Pairwise (fun a b => a.1 < b.1)) :
    (setAscending k v entries).Pairwise (fun a b => a.1 < b.1) := by
  induction entries with
  | nil => simp [setAscending]
  | cons head rest ih =>
      obtain ⟨k', v'⟩ := head
      obtain ⟨hHead, hTail⟩ := List.pairwise_cons.mp h
      unfold setAscending
      split
      · rename_i hlt
        refine List.pairwise_cons.mpr ⟨?_, h⟩
        intro entry hEntry
        rcases List.mem_cons.mp hEntry with rfl | hEntry
        · exact hlt
        · exact Std.lt_trans hlt (hHead entry hEntry)
      · split
        · rename_i hlt
          refine List.pairwise_cons.mpr ⟨?_, ih hTail⟩
          intro entry hEntry
          rcases key_of_mem_setAscending hEntry with rfl | hEntry
          · exact hlt
          · exact hHead entry hEntry
        · rename_i hLess hGreater
          have hEq : k = k' := by
            rcases Std.lt_trichotomy k k' with hlt | hEq | hlt
            · exact absurd hlt hLess
            · exact hEq
            · exact absurd hlt hGreater
          subst hEq
          exact List.pairwise_cons.mpr ⟨hHead, hTail⟩

end Setting

/-!
# Operations

Keys are looked up, set, and dropped by a test. A map made from a list keeps the last value given
for a key.
-/

section Operations

variable {κ α β : Type} [LT κ]

def empty : SortedMap κ α where
  entries := []
  ascending := List.Pairwise.nil

instance : Inhabited (SortedMap κ α) := ⟨empty⟩

instance [DecidableEq κ] [DecidableEq α] : DecidableEq (SortedMap κ α) := fun m n =>
  if h : m.entries = n.entries then
    isTrue (by cases m; cases n; cases h; rfl)
  else
    isFalse (fun hEq => h (hEq ▸ rfl))

def size (m : SortedMap κ α) : Nat :=
  m.entries.length

def isEmpty (m : SortedMap κ α) : Bool :=
  m.entries.isEmpty

def keys (m : SortedMap κ α) : List κ :=
  m.entries.map (·.1)

def get? [DecidableEq κ] (m : SortedMap κ α) (k : κ) : Option α :=
  m.entries.lookup k

def contains [DecidableEq κ] (m : SortedMap κ α) (k : κ) : Bool :=
  (m.get? k).isSome

def filter (p : κ → α → Bool) (m : SortedMap κ α) : SortedMap κ α where
  entries := m.entries.filter (fun entry => p entry.1 entry.2)
  ascending := m.ascending.filter _

def mapValues (f : κ → α → β) (m : SortedMap κ α) : SortedMap κ β where
  entries := m.entries.map (fun entry => (entry.1, f entry.1 entry.2))
  ascending := List.pairwise_map.mpr m.ascending

variable [DecidableLT κ] [LE κ] [Std.IsLinearOrder κ] [Std.LawfulOrderLT κ]

def set (m : SortedMap κ α) (k : κ) (v : α) : SortedMap κ α where
  entries := setAscending k v m.entries
  ascending := pairwise_setAscending k v m.ascending

def ofList (entries : List (κ × α)) : SortedMap κ α :=
  entries.foldl (fun m entry => m.set entry.1 entry.2) empty

end Operations

/-!
# Lookup

A map is determined by its lookups, and each operation is described by the lookups after it.
-/

section Lookup

variable {κ α : Type} [LT κ] [DecidableEq κ]

@[simp] theorem get?_empty (k : κ) : (empty : SortedMap κ α).get? k = none :=
  rfl

variable [DecidableLT κ] [LE κ] [Std.IsLinearOrder κ] [Std.LawfulOrderLT κ]

theorem lookup_setAscending [BEq κ] [LawfulBEq κ] (k : κ) (v : α) (x : κ)
    (entries : List (κ × α)) :
    (setAscending k v entries).lookup x = if x = k then some v else entries.lookup x := by
  induction entries with
  | nil =>
      by_cases hx : x = k
      · simp [setAscending, hx]
      · have hBeq : (x == k) = false := by simpa using hx
        simp [setAscending, List.lookup_cons, hBeq, hx]
  | cons head rest ih =>
      obtain ⟨k', v'⟩ := head
      unfold setAscending
      split
      · by_cases hx : x = k
        · simp [hx]
        · have hBeq : (x == k) = false := by simpa using hx
          simp [List.lookup_cons, hBeq, hx]
      · rename_i hLess
        split
        · rename_i hlt
          by_cases hx' : x = k'
          · have hne : k' ≠ k := fun hEq => Std.lt_irrefl (hEq ▸ hlt)
            subst hx'
            simp [hne]
          · have hBeq : (x == k') = false := by simpa using hx'
            simp only [List.lookup_cons, hBeq]
            exact ih
        · rename_i hGreater
          have hEq : k = k' := by
            rcases Std.lt_trichotomy k k' with hlt | hEq | hlt
            · exact absurd hlt hLess
            · exact hEq
            · exact absurd hlt hGreater
          subst hEq
          by_cases hx : x = k
          · simp [hx]
          · have hBeq : (x == k) = false := by simpa using hx
            simp [List.lookup_cons, hBeq, hx]

@[simp] theorem get?_set (m : SortedMap κ α) (k : κ) (v : α) (x : κ) :
    (m.set k v).get? x = if x = k then some v else m.get? x :=
  lookup_setAscending k v x m.entries

end Lookup

/-!
# Lookup after filtering

Each key has one entry, so what the test drops is not found further on.
-/

section Filtering

variable {κ α : Type} [LT κ] [LE κ] [Std.LawfulOrderLT κ]

theorem lookup_eq_none_of_forall_lt [BEq κ] [LawfulBEq κ] {k : κ} {entries : List (κ × α)}
    (h : ∀ entry ∈ entries, k < entry.1) : entries.lookup k = none := by
  rw [List.lookup_eq_none_iff]
  intro entry hEntry
  have hNe : k ≠ entry.1 := fun hEq => Std.lt_irrefl (hEq ▸ h entry hEntry)
  simpa using hNe

theorem lookup_filter [BEq κ] [LawfulBEq κ] (p : κ → α → Bool) (x : κ) {entries : List (κ × α)}
    (h : entries.Pairwise (fun a b => a.1 < b.1)) :
    (entries.filter (fun entry => p entry.1 entry.2)).lookup x =
      (entries.lookup x).filter (p x) := by
  induction entries with
  | nil => rfl
  | cons head rest ih =>
      obtain ⟨k, v⟩ := head
      obtain ⟨hHead, hTail⟩ := List.pairwise_cons.mp h
      rw [List.filter_cons]
      by_cases hx : x = k
      · subst hx
        have hRest : rest.lookup x = none := lookup_eq_none_of_forall_lt hHead
        cases hKeep : p x v with
        | true => simp [Option.filter, hKeep]
        | false => simp [Option.filter, hKeep, ih hTail, hRest]
      · have hBeq : (x == k) = false := by simpa using hx
        cases hKeep : p k v with
        | true => simp [List.lookup_cons, hBeq, ih hTail]
        | false => simp [List.lookup_cons, hBeq, ih hTail]

@[simp] theorem get?_filter [DecidableEq κ] (p : κ → α → Bool) (m : SortedMap κ α) (x : κ) :
    (m.filter p).get? x = (m.get? x).filter (p x) :=
  lookup_filter p x m.ascending

end Filtering

/-!
# Maps from their entries

Entries that come in ascending order are kept as they come, so a map is made again from its own.
-/

section Entries

variable {κ α : Type} [LT κ] [DecidableLT κ] [LE κ] [Std.LawfulOrderLT κ]

theorem setAscending_of_forall_lt {k : κ} (v : α) {entries : List (κ × α)}
    (h : ∀ entry ∈ entries, entry.1 < k) : setAscending k v entries = entries ++ [(k, v)] := by
  induction entries with
  | nil => rfl
  | cons head rest ih =>
      obtain ⟨k', v'⟩ := head
      have hHead : k' < k := h (k', v') (List.mem_cons_self ..)
      have hTail := ih (fun entry hMem => h entry (List.mem_cons_of_mem _ hMem))
      rw [setAscending, if_neg (Std.not_gt_of_lt hHead), if_pos hHead, hTail, List.cons_append]

variable [Std.IsLinearOrder κ]

theorem entries_foldl_set (m : SortedMap κ α) {entries : List (κ × α)}
    (h : (m.entries ++ entries).Pairwise (fun a b => a.1 < b.1)) :
    (entries.foldl (fun m entry => m.set entry.1 entry.2) m).entries = m.entries ++ entries := by
  induction entries generalizing m with
  | nil => rw [List.foldl_nil, List.append_nil]
  | cons entry rest ih =>
      have hLast : ∀ before ∈ m.entries, before.1 < entry.1 := by
        intro before hBefore
        exact (List.pairwise_append.mp h).2.2 before hBefore entry (List.mem_cons_self ..)
      have hSet : (m.set entry.1 entry.2).entries = m.entries ++ [entry] :=
        setAscending_of_forall_lt entry.2 hLast
      rw [List.append_cons, ← hSet] at h
      rw [List.foldl_cons, ih (m.set entry.1 entry.2) h, hSet, ← List.append_cons]

theorem ofList_entries (m : SortedMap κ α) : ofList m.entries = m := by
  have hEntries : (ofList m.entries).entries = m.entries :=
    entries_foldl_set empty m.ascending
  cases hMap : ofList m.entries with
  | mk entries ascending =>
      rw [hMap] at hEntries
      cases m
      cases hEntries
      rfl

end Entries

end SortedMap
end CatalogAudit
