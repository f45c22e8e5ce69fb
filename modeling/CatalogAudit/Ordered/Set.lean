/-!
# Ordered sets

A finite set of items of a linear order, kept as the strictly ascending list of its members.
The list is a normal form: two sets with the same members are equal, and a report that lists a
set in order only has to read the list.
-/

namespace CatalogAudit

structure SortedSet (α : Type) [LT α] where
  toList : List α
  ascending : toList.Pairwise (· < ·)

namespace SortedSet

/-!
# Ascending lists

Insertion keeps an ascending list ascending. An item that is present already is not repeated.
-/

section Insertion

variable {α : Type} [LT α] [DecidableLT α]

def insertAscending (a : α) : List α → List α
  | [] => [a]
  | b :: bs =>
      if a < b then a :: b :: bs
      else if b < a then b :: insertAscending a bs
      else b :: bs

variable [LE α] [Std.IsLinearOrder α] [Std.LawfulOrderLT α]

theorem mem_insertAscending (a x : α) (xs : List α) :
    x ∈ insertAscending a xs ↔ x = a ∨ x ∈ xs := by
  induction xs with
  | nil => simp [insertAscending]
  | cons b bs ih =>
      unfold insertAscending
      split
      · simp
      · rename_i hab
        split
        · simp only [List.mem_cons, ih]
          grind
        · rename_i hba
          have hEq : a = b := by
            rcases Std.lt_trichotomy a b with h | h | h
            · exact absurd h hab
            · exact h
            · exact absurd h hba
          subst hEq
          simp

theorem pairwise_insertAscending (a : α) {xs : List α} (h : xs.Pairwise (· < ·)) :
    (insertAscending a xs).Pairwise (· < ·) := by
  induction xs with
  | nil => simp [insertAscending]
  | cons b bs ih =>
      have hTail := (List.pairwise_cons.mp h).2
      have hHead := (List.pairwise_cons.mp h).1
      unfold insertAscending
      split
      · rename_i hab
        refine List.pairwise_cons.mpr ⟨?_, h⟩
        intro x hx
        rcases List.mem_cons.mp hx with rfl | hx
        · exact hab
        · exact Std.lt_trans hab (hHead x hx)
      · split
        · rename_i hba
          refine List.pairwise_cons.mpr ⟨?_, ih hTail⟩
          intro x hx
          rcases (mem_insertAscending a x bs).mp hx with rfl | hx
          · exact hba
          · exact hHead x hx
        · exact h

end Insertion

/-!
# Building sets

Every set is built by insertion, by filtering, or from the images of another set's members.
-/

section Operations

variable {α : Type} [LT α]

instance : Membership α (SortedSet α) where
  mem s a := a ∈ s.toList

instance [DecidableEq α] : DecidableEq (SortedSet α) := fun s t =>
  if h : s.toList = t.toList then
    isTrue (by cases s; cases t; cases h; rfl)
  else
    isFalse (fun hEq => h (hEq ▸ rfl))

instance [DecidableEq α] (a : α) (s : SortedSet α) : Decidable (a ∈ s) :=
  inferInstanceAs (Decidable (a ∈ s.toList))

def empty : SortedSet α where
  toList := []
  ascending := List.Pairwise.nil

instance : Inhabited (SortedSet α) := ⟨empty⟩

def size (s : SortedSet α) : Nat :=
  s.toList.length

def isEmpty (s : SortedSet α) : Bool :=
  s.toList.isEmpty

def filter (p : α → Bool) (s : SortedSet α) : SortedSet α where
  toList := s.toList.filter p
  ascending := s.ascending.filter p

variable [DecidableLT α] [LE α] [Std.IsLinearOrder α] [Std.LawfulOrderLT α]

def insert (a : α) (s : SortedSet α) : SortedSet α where
  toList := insertAscending a s.toList
  ascending := pairwise_insertAscending a s.ascending

def ofList (xs : List α) : SortedSet α :=
  xs.foldr insert empty

def insertAll (s : SortedSet α) (xs : List α) : SortedSet α :=
  xs.foldr insert s

end Operations

/-!
# Membership

The members of a set determine it, and each operation is described by its members.
-/

section Membership

variable {α : Type} [LT α]

theorem mem_def {a : α} {s : SortedSet α} : a ∈ s ↔ a ∈ s.toList :=
  Iff.rfl

@[simp] theorem not_mem_empty (a : α) : ¬a ∈ (empty : SortedSet α) := by
  simp [mem_def, empty]

@[simp] theorem mem_filter {p : α → Bool} {a : α} {s : SortedSet α} :
    a ∈ s.filter p ↔ a ∈ s ∧ p a = true := by
  simp [mem_def, filter]

theorem isEmpty_iff {s : SortedSet α} : s.isEmpty = true ↔ ∀ a, ¬a ∈ s := by
  simp [isEmpty, mem_def, List.isEmpty_iff, List.eq_nil_iff_forall_not_mem]

section Extensionality

variable [LE α] [Std.IsLinearOrder α] [Std.LawfulOrderLT α]

theorem eq_of_mem_iff_mem {xs ys : List α} (hx : xs.Pairwise (· < ·)) (hy : ys.Pairwise (· < ·))
    (h : ∀ a, a ∈ xs ↔ a ∈ ys) : xs = ys := by
  induction xs generalizing ys with
  | nil =>
      cases ys with
      | nil => rfl
      | cons y ys => exact absurd ((h y).mpr (List.mem_cons_self ..)) List.not_mem_nil
  | cons x xs ih =>
      cases ys with
      | nil => exact absurd ((h x).mp (List.mem_cons_self ..)) List.not_mem_nil
      | cons y ys =>
          have hxTail := List.pairwise_cons.mp hx
          have hyTail := List.pairwise_cons.mp hy
          have hxy : x = y := by
            rcases List.mem_cons.mp ((h x).mp (List.mem_cons_self ..)) with hEq | hMem
            · exact hEq
            · rcases List.mem_cons.mp ((h y).mpr (List.mem_cons_self ..)) with hEq | hMem'
              · exact hEq.symm
              · exact absurd (Std.lt_trans (hyTail.1 x hMem) (hxTail.1 y hMem')) (Std.lt_irrefl)
          subst hxy
          have hTails : ∀ a, a ∈ xs ↔ a ∈ ys := by
            intro a
            constructor
            · intro ha
              rcases List.mem_cons.mp ((h a).mp (List.mem_cons_of_mem x ha)) with hEq | hMem
              · exact absurd (hEq ▸ hxTail.1 a ha) (Std.lt_irrefl)
              · exact hMem
            · intro ha
              rcases List.mem_cons.mp ((h a).mpr (List.mem_cons_of_mem x ha)) with hEq | hMem
              · exact absurd (hEq ▸ hyTail.1 a ha) (Std.lt_irrefl)
              · exact hMem
          rw [ih hxTail.2 hyTail.2 hTails]

theorem ext_mem {s t : SortedSet α} (h : ∀ a, a ∈ s ↔ a ∈ t) : s = t := by
  have hList := eq_of_mem_iff_mem s.ascending t.ascending h
  cases s
  cases t
  cases hList
  rfl

end Extensionality

variable [DecidableLT α] [LE α] [Std.IsLinearOrder α] [Std.LawfulOrderLT α]

@[simp] theorem mem_insert {a x : α} {s : SortedSet α} : x ∈ s.insert a ↔ x = a ∨ x ∈ s :=
  mem_insertAscending a x s.toList

@[simp] theorem mem_insertAll {x : α} {s : SortedSet α} {xs : List α} :
    x ∈ s.insertAll xs ↔ x ∈ xs ∨ x ∈ s := by
  induction xs with
  | nil => simp [insertAll]
  | cons a as ih =>
      have hStep : s.insertAll (a :: as) = (s.insertAll as).insert a := rfl
      rw [hStep, mem_insert, ih, List.mem_cons, or_assoc]

@[simp] theorem mem_ofList {x : α} {xs : List α} : x ∈ ofList xs ↔ x ∈ xs := by
  have h : x ∈ (empty : SortedSet α).insertAll xs ↔ x ∈ xs ∨ x ∈ (empty : SortedSet α) :=
    mem_insertAll
  simpa [ofList, insertAll] using h

@[simp] theorem ofList_toList (s : SortedSet α) : ofList s.toList = s :=
  ext_mem (fun _ => mem_ofList)

end Membership

/-!
# Size

An item that is present already does not count again.
-/

section Size

variable {α : Type} [LT α] [DecidableLT α]

theorem length_insertAscending_le (a : α) (xs : List α) :
    (insertAscending a xs).length ≤ xs.length + 1 := by
  induction xs with
  | nil => exact Nat.le_refl _
  | cons b bs ih =>
      unfold insertAscending
      split
      · exact Nat.le_refl _
      · split
        · exact Nat.succ_le_succ ih
        · exact Nat.le_succ _

variable [LE α] [Std.IsLinearOrder α] [Std.LawfulOrderLT α]

theorem size_ofList_le (xs : List α) : (ofList xs).size ≤ xs.length := by
  induction xs with
  | nil => exact Nat.le_refl _
  | cons a as ih =>
      have hStep := length_insertAscending_le a (ofList as).toList
      exact Nat.le_trans hStep (Nat.succ_le_succ ih)

end Size

end SortedSet
end CatalogAudit
