import CatalogAudit.Proofs.Catalog.Naming

/-!
# The walk and the recursion

The walk keeps the nodes that are still to be visited on a stack, where those of all levels lie one
on the other. A recursion on the value needs no stack, but as many nested calls as the value is
deep. Both list the same in the same order, and the walk ends after one step for each node.
-/

namespace CatalogAudit
namespace Catalog

/-!
# The traversal by recursion

A node comes before the nodes below it, and these come in document order.
-/

mutual

def traverse (path : String) : Json → FlatCatalog
  | .string value => if path = "" then ⟨[], []⟩ else ⟨[⟨path, value⟩], []⟩
  | .object members => traverseMembers path members
  | .array items => ⟨[], [⟨.array, path⟩]⟩ ++ traverseItems path 0 items
  | .null => ⟨[], []⟩
  | .bool _ => ⟨[], []⟩
  | .number _ => ⟨[], []⟩

def traverseItems (path : String) : Nat → List Json → FlatCatalog
  | _, [] => ⟨[], []⟩
  | index, item :: items =>
      traverse (KeyPath.child path (toString index)) item ++ traverseItems path (index + 1) items

def traverseMembers (path : String) : List (String × Json) → FlatCatalog
  | [] => ⟨[], []⟩
  | (name, value) :: members =>
      traverse (KeyPath.child path name) value ++ traverseMembers path members

end

mutual

/-- The recursion lists the nodes of the value, called by the text that leads to them. -/
theorem traverse_walkedText (path : List String) (node : Json) :
    traverse (walkedText path) node = listing walkedText (nodesAt path node) := by
  cases node with
  | null => rfl
  | bool b => rfl
  | number n => rfl
  | string value =>
      by_cases hEmpty : walkedText path = ""
      · simp [traverse, nodesAt, listing, entryOf?, warningOf?, hEmpty]
      · simp [traverse, nodesAt, listing, entryOf?, warningOf?, hEmpty]
  | object members =>
      rw [traverse, traverseMembers_walkedText path members]
      rfl
  | array items =>
      rw [traverse, traverseItems_walkedText path 0 items]
      rfl

theorem traverseItems_walkedText (path : List String) (index : Nat) (items : List Json) :
    traverseItems (walkedText path) index items =
      listing walkedText (itemNodesAt path index items) := by
  cases items with
  | nil => rfl
  | cons item items =>
      rw [traverseItems, itemNodesAt, ← walkedText_snoc, traverse_walkedText,
        traverseItems_walkedText path (index + 1) items, listing_append]

theorem traverseMembers_walkedText (path : List String) (members : List (String × Json)) :
    traverseMembers (walkedText path) members =
      listing walkedText (memberNodesAt path members) := by
  cases members with
  | nil => rfl
  | cons member members =>
      obtain ⟨name, value⟩ := member
      rw [traverseMembers, memberNodesAt, ← walkedText_snoc, traverse_walkedText,
        traverseMembers_walkedText path members, listing_append]

end

theorem walkedText_singleton (path : String) : walkedText [path] = path := by
  show KeyPath.child "" path = path
  exact if_pos rfl

/-- The topmost node is done with, and all that is below it, before the next one is visited. -/
theorem visit_cons_eq_traverse (node : Json) (path : String) (stack : List Pending) :
    visit ((node, path) :: stack) = traverse path node ++ visit stack := by
  have hVisit := visit_cons [path] node stack
  rw [← traverse_walkedText, walkedText_singleton] at hVisit
  exact hVisit

theorem visit_nil : visit [] = ⟨[], []⟩ := by
  rw [visit]

theorem append_nil (found : FlatCatalog) : found ++ (⟨[], []⟩ : FlatCatalog) = found := by
  show FlatCatalog.mk _ _ = found
  rw [List.append_nil, List.append_nil]

/-!
# The walk step by step

One step takes the topmost node off the stack, lists it at the end of what has been found, and
pushes its children, the last one first.
-/

structure Walk where
  stack : List Pending
  found : FlatCatalog

namespace Walk

def start (root : Json) : Walk :=
  ⟨[(root, "")], ⟨[], []⟩⟩

def push (nodes stack : List Pending) : List Pending :=
  nodes.reverse.foldl (fun stack node => node :: stack) stack

def step : Walk → Walk
  | ⟨[], found⟩ => ⟨[], found⟩
  | ⟨(.string value, path) :: stack, found⟩ =>
      ⟨stack, if path = "" then found else found ++ ⟨[⟨path, value⟩], []⟩⟩
  | ⟨(.object members, path) :: stack, found⟩ => ⟨push (memberNodes path members) stack, found⟩
  | ⟨(.array items, path) :: stack, found⟩ =>
      ⟨push (itemNodesFrom path 0 items) stack, found ++ ⟨[], [⟨.array, path⟩]⟩⟩
  | ⟨(.null, _) :: stack, found⟩ => ⟨stack, found⟩
  | ⟨(.bool _, _) :: stack, found⟩ => ⟨stack, found⟩
  | ⟨(.number _, _) :: stack, found⟩ => ⟨stack, found⟩

theorem push_eq_append (nodes stack : List Pending) : push nodes stack = nodes ++ stack := by
  unfold push
  rw [List.foldl_reverse]
  induction nodes with
  | nil => rfl
  | cons node nodes ih => rw [List.foldr_cons, ih, List.cons_append]

def outcome (walk : Walk) : FlatCatalog :=
  walk.found ++ visit walk.stack

/-- A step makes no difference to what is found in the end. -/
theorem outcome_step (walk : Walk) : walk.step.outcome = walk.outcome := by
  obtain ⟨stack, found⟩ := walk
  cases stack with
  | nil => rfl
  | cons top stack =>
      obtain ⟨node, path⟩ := top
      unfold outcome
      cases node with
      | null => rw [visit]; rfl
      | bool b => rw [visit]; rfl
      | number n => rw [visit]; rfl
      | string value =>
          rw [visit]
          by_cases hEmpty : path = ""
          · simp only [step, if_pos hEmpty]
          · simp only [step, if_neg hEmpty]
            rw [append_append]
            rfl
      | object members =>
          rw [visit, ← push_eq_append]
          rfl
      | array items =>
          rw [visit, ← push_eq_append]
          simp only [step]
          rw [append_append]
          rfl

theorem pendingWeight_step (walk : Walk) :
    pendingWeight walk.step.stack = pendingWeight walk.stack - 1 := by
  obtain ⟨stack, found⟩ := walk
  cases stack with
  | nil => rfl
  | cons top stack =>
      obtain ⟨node, path⟩ := top
      cases node with
      | object members =>
          simp only [step, push_eq_append, pendingWeight_append, pendingWeight_memberNodes,
            pendingWeight, weight]
          omega
      | array items =>
          simp only [step, push_eq_append, pendingWeight_append, pendingWeight_itemNodesFrom,
            pendingWeight, weight]
          omega
      | _ =>
          simp only [step, pendingWeight, weight]
          omega

theorem weight_pos (node : Json) : 0 < weight node := by
  cases node with
  | object members => simp only [weight]; omega
  | array items => simp only [weight]; omega
  | _ => exact Nat.zero_lt_one

theorem pendingWeight_eq_zero_iff (stack : List Pending) :
    pendingWeight stack = 0 ↔ stack = [] := by
  cases stack with
  | nil => exact iff_of_true rfl rfl
  | cons top stack =>
      have hPos := weight_pos top.1
      simp only [pendingWeight]
      constructor
      · intro h
        omega
      · intro h
        cases h

/-- Each step takes one node off those that are still to be visited. -/
theorem pendingWeight_iterate_step (n : Nat) (walk : Walk) :
    pendingWeight (step^[n] walk).stack = pendingWeight walk.stack - n := by
  induction n with
  | zero => rfl
  | succ n ih =>
      rw [Function.iterate_succ_apply', pendingWeight_step, ih]
      omega

theorem outcome_iterate_step (n : Nat) (walk : Walk) :
    (step^[n] walk).outcome = walk.outcome := by
  induction n with
  | zero => rfl
  | succ n ih => rw [Function.iterate_succ_apply', outcome_step, ih]

theorem stack_iterate_step_eq_nil_iff (n : Nat) (walk : Walk) :
    (step^[n] walk).stack = [] ↔ pendingWeight walk.stack ≤ n := by
  rw [← pendingWeight_eq_zero_iff, pendingWeight_iterate_step]
  omega

theorem eq_of_stack_eq_nil {walk : Walk} (h : walk.stack = []) : walk = ⟨[], walk.outcome⟩ := by
  obtain ⟨stack, found⟩ := walk
  cases h
  unfold outcome
  rw [visit_nil, append_nil]

end Walk

/-!
# Both are the same
-/

/--
Flattening lists what the recursion lists. The walk gets there by itself: its stack is empty from
that step on by which it has made one for each node, and then it has found exactly this.
-/
theorem flatten_eq_traverse (root : Json) :
    flatten root = traverse "" root ∧
      ∀ n, ((Walk.step^[n] (.start root)).stack = [] ↔ weight root ≤ n) ∧
        (weight root ≤ n → Walk.step^[n] (.start root) = ⟨[], traverse "" root⟩) := by
  have hFlatten : flatten root = traverse "" root := by
    unfold flatten
    rw [visit_cons_eq_traverse, visit_nil, append_nil]
  have hEnd : ∀ n, (Walk.step^[n] (.start root)).stack = [] ↔ weight root ≤ n := fun n =>
    Walk.stack_iterate_step_eq_nil_iff n (.start root)
  refine ⟨hFlatten, fun n => ⟨hEnd n, ?_⟩⟩
  intro hLong
  have hFound : (Walk.start root).outcome = flatten root := rfl
  rw [Walk.eq_of_stack_eq_nil ((hEnd n).mpr hLong), Walk.outcome_iterate_step, hFound, hFlatten]

end Catalog
end CatalogAudit
