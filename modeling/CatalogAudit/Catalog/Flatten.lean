import CatalogAudit.Catalog.KeyPath
import CatalogAudit.Json.Value

/-!
# Flattening a catalog

The messages of a catalog are its string leaves, each under the path that leads to it. The nodes
still to visit are kept in a list, so that a deep catalog needs no deep recursion, and the children
of a node go to its front, so that messages come in document order. Arrays are visited by index
and reported as anomalies.
-/

namespace CatalogAudit
namespace Catalog

structure Entry where
  key : String
  value : String
deriving DecidableEq, Repr

inductive Anomaly where
  | array
deriving DecidableEq, Repr

def Anomaly.name : Anomaly → String
  | .array => "array"

structure Warning where
  kind : Anomaly
  /-- The path of the node, empty for the root. -/
  path : String
deriving DecidableEq, Repr

structure FlatCatalog where
  entries : List Entry
  warnings : List Warning
deriving DecidableEq, Repr

def FlatCatalog.keys (e : FlatCatalog) : KeySet :=
  .ofList (e.entries.map (·.key))

/-!
# Weights

Visiting a node takes it off the list and puts its children there. The number of nodes below and
including the listed ones goes down by one.
-/

mutual

def weight : Json → Nat
  | .array items => 1 + itemsWeight items
  | .object members => 1 + membersWeight members
  | .null => 1
  | .bool _ => 1
  | .number _ => 1
  | .string _ => 1

def itemsWeight : List Json → Nat
  | [] => 0
  | item :: items => weight item + itemsWeight items

def membersWeight : List (String × Json) → Nat
  | [] => 0
  | (_, value) :: members => weight value + membersWeight members

end

/-- A node that is still to be visited, with its path. -/
abbrev Pending := Json × String

def pendingWeight : List Pending → Nat
  | [] => 0
  | (node, _) :: pending => weight node + pendingWeight pending

def memberNodes (path : String) (members : List (String × Json)) : List Pending :=
  members.map (fun member => (member.2, KeyPath.child path member.1))

def itemNodesFrom (path : String) : Nat → List Json → List Pending
  | _, [] => []
  | index, item :: items =>
      (item, KeyPath.child path (toString index)) :: itemNodesFrom path (index + 1) items

theorem pendingWeight_append (xs ys : List Pending) :
    pendingWeight (xs ++ ys) = pendingWeight xs + pendingWeight ys := by
  induction xs with
  | nil => simp [pendingWeight]
  | cons x xs ih => simp [pendingWeight, ih, Nat.add_assoc]

theorem pendingWeight_memberNodes (path : String) (members : List (String × Json)) :
    pendingWeight (memberNodes path members) = membersWeight members := by
  induction members with
  | nil => rfl
  | cons member members ih =>
      have hTail : pendingWeight (members.map fun m => (m.2, KeyPath.child path m.1)) =
          membersWeight members := ih
      simp [memberNodes, pendingWeight, membersWeight, hTail]

theorem pendingWeight_itemNodesFrom (path : String) (index : Nat) (items : List Json) :
    pendingWeight (itemNodesFrom path index items) = itemsWeight items := by
  induction items generalizing index with
  | nil => rfl
  | cons item items ih => simp [itemNodesFrom, pendingWeight, itemsWeight, ih]

/-!
# The walk
-/

def visit : List Pending → FlatCatalog
  | [] => ⟨[], []⟩
  | (.string value, path) :: pending =>
      let found := visit pending
      if path = "" then found else ⟨⟨path, value⟩ :: found.entries, found.warnings⟩
  | (.object members, path) :: pending => visit (memberNodes path members ++ pending)
  | (.array items, path) :: pending =>
      let found := visit (itemNodesFrom path 0 items ++ pending)
      ⟨found.entries, ⟨.array, path⟩ :: found.warnings⟩
  | (.null, _) :: pending => visit pending
  | (.bool _, _) :: pending => visit pending
  | (.number _, _) :: pending => visit pending
termination_by pending => pendingWeight pending
decreasing_by
  all_goals
    simp [pendingWeight, pendingWeight_append, pendingWeight_memberNodes,
      pendingWeight_itemNodesFrom, weight]

def flatten (root : Json) : FlatCatalog :=
  visit [(root, "")]

end Catalog
end CatalogAudit
