import CatalogAudit.Proofs.Catalog.Naming
import CatalogAudit.Proofs.FileTree.Pieces

/-!
# Paths of nodes

The nodes of a catalog are reached from its root, child by child, and the path of a node lists the
names on the way. In a document that has been read no object names a member twice, so no two nodes
have the same path. If no name is empty or holds a dot, the text of a path tells the path as well.
-/

namespace CatalogAudit

/-!
# Merged members

Merging leaves one member for each name, and each value is one of those that were given.
-/

namespace Json

theorem mem_setMember {name : String} {value : Json} {members : List (String × Json)}
    {member : String × Json} (h : member ∈ setMember name value members) :
    member = (name, value) ∨ member ∈ members := by
  induction members with
  | nil => exact Or.inl (List.mem_singleton.mp h)
  | cons head rest ih =>
      unfold setMember at h
      split at h
      · exact (List.mem_cons.mp h).imp id (List.mem_cons_of_mem head)
      · rcases List.mem_cons.mp h with rfl | hRest
        · exact Or.inr (List.mem_cons_self ..)
        · exact (ih hRest).imp id (List.mem_cons_of_mem head)

theorem nodup_setMember {members : List (String × Json)} (h : (members.map (·.1)).Nodup)
    (name : String) (value : Json) : ((setMember name value members).map (·.1)).Nodup := by
  induction members with
  | nil => exact List.nodup_singleton name
  | cons head rest ih =>
      obtain ⟨hHead, hRest⟩ := List.nodup_cons.mp h
      unfold setMember
      split
      · rename_i hSame
        rw [← hSame]
        exact h
      · rename_i hOther
        refine List.nodup_cons.mpr ⟨?_, ih hRest⟩
        intro hMem
        rcases List.mem_map.mp hMem with ⟨member, hMember, hName⟩
        rcases mem_setMember hMember with rfl | hInside
        · exact hOther hName.symm
        · exact hHead (List.mem_map.mpr ⟨member, hInside, hName⟩)

theorem nodup_mergeMembers (members : List (String × Json)) :
    ((mergeMembers members).map (·.1)).Nodup := by
  unfold mergeMembers
  induction members using List.reverseRecOn with
  | nil => exact List.nodup_nil
  | append_singleton front member ih =>
      rw [List.foldl_append]
      exact nodup_setMember ih member.1 member.2

theorem mem_of_mem_mergeMembers {members : List (String × Json)} {member : String × Json}
    (h : member ∈ mergeMembers members) : member ∈ members := by
  unfold mergeMembers at h
  induction members using List.reverseRecOn with
  | nil => cases h
  | append_singleton front last ih =>
      rw [List.foldl_append] at h
      rcases mem_setMember h with rfl | hFront
      · exact List.mem_append_right front (List.mem_singleton_self _)
      · exact List.mem_append_left [last] (ih hFront)

theorem mergedItems_eq (items : List Json) : mergedItems items = items.map merged := by
  induction items with
  | nil => rfl
  | cons item items ih => rw [mergedItems, ih, List.map_cons]

theorem mergedMembers_eq (members : List (String × Json)) :
    mergedMembers members = members.map fun member => (member.1, member.2.merged) := by
  induction members with
  | nil => rfl
  | cons member members ih =>
      obtain ⟨name, value⟩ := member
      rw [mergedMembers, ih, List.map_cons]

end Json

namespace Catalog

/-!
# Children
-/

/-- Items are named by their indices, counted from the given one on. -/
def numbered : Nat → List Json → List (String × Json)
  | _, [] => []
  | index, item :: items => (toString index, item) :: numbered (index + 1) items

def children : Json → List (String × Json)
  | .object members => members
  | .array items => numbered 0 items
  | .null => []
  | .bool _ => []
  | .number _ => []
  | .string _ => []

theorem exists_index_of_mem_numbered {index : Nat} {items : List Json} {child : String × Json}
    (h : child ∈ numbered index items) :
    ∃ number, index ≤ number ∧ child.1 = toString number ∧ child.2 ∈ items := by
  induction items generalizing index with
  | nil => cases h
  | cons item items ih =>
      rcases List.mem_cons.mp h with rfl | hRest
      · exact ⟨index, Nat.le_refl index, rfl, List.mem_cons_self ..⟩
      · rcases ih hRest with ⟨number, hLe, hName, hItem⟩
        exact ⟨number, Nat.le_of_succ_le hLe, hName, List.mem_cons_of_mem item hItem⟩

theorem exists_mem_numbered (index : Nat) {item : Json} {items : List Json} (h : item ∈ items) :
    ∃ name, (name, item) ∈ numbered index items := by
  induction items generalizing index with
  | nil => cases h
  | cons head items ih =>
      rcases List.mem_cons.mp h with rfl | hRest
      · exact ⟨toString index, List.mem_cons_self ..⟩
      · rcases ih (index + 1) hRest with ⟨name, hName⟩
        exact ⟨name, List.mem_cons_of_mem _ hName⟩

theorem nodup_numbered (index : Nat) (items : List Json) :
    ((numbered index items).map (·.1)).Nodup := by
  induction items generalizing index with
  | nil => exact List.nodup_nil
  | cons item items ih =>
      refine List.nodup_cons.mpr ⟨?_, ih (index + 1)⟩
      intro hMem
      rcases List.mem_map.mp hMem with ⟨child, hChild, hName⟩
      rcases exists_index_of_mem_numbered hChild with ⟨number, hLe, hNumber, _⟩
      have hSame : index = number := Nat.repr_inj.mp (hName.symm.trans hNumber)
      omega

theorem itemNodesAt_eq_flatMap (path : List String) (index : Nat) (items : List Json) :
    itemNodesAt path index items =
      (numbered index items).flatMap fun child => nodesAt (path ++ [child.1]) child.2 := by
  induction items generalizing index with
  | nil => rfl
  | cons item items ih => rw [itemNodesAt, numbered, List.flatMap_cons, ih]

theorem memberNodesAt_eq_flatMap (path : List String) (members : List (String × Json)) :
    memberNodesAt path members =
      members.flatMap fun child => nodesAt (path ++ [child.1]) child.2 := by
  induction members with
  | nil => rfl
  | cons member members ih =>
      obtain ⟨name, value⟩ := member
      rw [memberNodesAt, List.flatMap_cons, ih]

/-- The nodes of a value are the value itself and the nodes of its children. -/
theorem nodesAt_eq (path : List String) (node : Json) :
    nodesAt path node =
      (path, node) :: (children node).flatMap fun child => nodesAt (path ++ [child.1]) child.2 := by
  cases node with
  | object members => rw [nodesAt, memberNodesAt_eq_flatMap]; rfl
  | array items => rw [nodesAt, itemNodesAt_eq_flatMap]; rfl
  | _ => rfl

theorem mem_nodesAt_iff {path : List String} {node : Json} {located : Located} :
    located ∈ nodesAt path node ↔
      located = (path, node) ∨
        ∃ child ∈ children node, located ∈ nodesAt (path ++ [child.1]) child.2 := by
  rw [nodesAt_eq, List.mem_cons, List.mem_flatMap]

theorem weight_le_itemsWeight {item : Json} {items : List Json} (h : item ∈ items) :
    weight item ≤ itemsWeight items := by
  induction items with
  | nil => cases h
  | cons head items ih =>
      rw [itemsWeight]
      rcases List.mem_cons.mp h with rfl | hRest
      · exact Nat.le_add_right _ _
      · exact Nat.le_add_left_of_le (ih hRest)

theorem weight_le_membersWeight {member : String × Json} {members : List (String × Json)}
    (h : member ∈ members) : weight member.2 ≤ membersWeight members := by
  induction members with
  | nil => cases h
  | cons head members ih =>
      obtain ⟨name, value⟩ := head
      rw [membersWeight]
      rcases List.mem_cons.mp h with rfl | hRest
      · exact Nat.le_add_right _ _
      · exact Nat.le_add_left_of_le (ih hRest)

theorem weight_child_lt {node : Json} {child : String × Json} (h : child ∈ children node) :
    weight child.2 < weight node := by
  cases node with
  | object members =>
      have hLe : weight child.2 ≤ membersWeight members := weight_le_membersWeight h
      rw [weight]
      omega
  | array items =>
      rcases exists_index_of_mem_numbered h with ⟨_, _, _, hItem⟩
      have hLe := weight_le_itemsWeight hItem
      rw [weight]
      omega
  | _ => cases h

theorem induction_children {motive : Json → Prop}
    (step : ∀ node, (∀ child ∈ children node, motive child.2) → motive node) (node : Json) :
    motive node := by
  induction hWeight : weight node using Nat.strong_induction_on generalizing node with
  | _ n ih =>
      apply step
      intro child hChild
      exact ih (weight child.2) (hWeight ▸ weight_child_lt hChild) child.2 rfl

/-!
# Different nodes have different paths
-/

theorem prefix_of_mem_nodesAt {path : List String} {node : Json} {located : Located}
    (h : located ∈ nodesAt path node) : path <+: located.1 := by
  induction node using induction_children generalizing path with
  | step node ih =>
      rcases mem_nodesAt_iff.mp h with rfl | ⟨child, hChild, hBelow⟩
      · exact List.prefix_refl path
      · exact (List.prefix_append path [child.1]).trans (ih child hChild hBelow)

theorem ne_of_mem_nodesAt_snoc {path : List String} {name : String} {node : Json}
    {located : Located} (h : located ∈ nodesAt (path ++ [name]) node) : located.1 ≠ path := by
  intro hEq
  have hLength := (prefix_of_mem_nodesAt h).length_le
  rw [hEq, List.length_append, List.length_singleton] at hLength
  exact Nat.not_succ_le_self _ hLength

theorem eq_of_mem_nodesAt_self {path : List String} {node target : Json}
    (h : (path, target) ∈ nodesAt path node) : node = target := by
  rcases mem_nodesAt_iff.mp h with hSelf | ⟨child, _, hBelow⟩
  · exact (Prod.mk.inj hSelf).2.symm
  · exact absurd rfl (ne_of_mem_nodesAt_snoc hBelow)

theorem eq_of_snoc_isPrefix {base path : List String} {name other : String}
    (h : base ++ [name] <+: path) (hOther : base ++ [other] <+: path) : name = other := by
  have hPrefix := List.prefix_of_prefix_length_le h hOther (by simp)
  simpa using List.append_cancel_left (hPrefix.eq_of_length (by simp))

/-- No two children of any of the nodes have the same name. -/
def HasDistinctNames (nodes : List Located) : Prop :=
  ∀ located ∈ nodes, ((children located.2).map (·.1)).Nodup

theorem HasDistinctNames.below {path : List String} {node : Json}
    (h : HasDistinctNames (nodesAt path node)) {child : String × Json}
    (hChild : child ∈ children node) : HasDistinctNames (nodesAt (path ++ [child.1]) child.2) :=
  fun located hLocated => h located (mem_nodesAt_iff.mpr (Or.inr ⟨child, hChild, hLocated⟩))

theorem HasDistinctNames.nodup_paths {path : List String} {node : Json}
    (h : HasDistinctNames (nodesAt path node)) : ((nodesAt path node).map (·.1)).Nodup := by
  induction node using induction_children generalizing path with
  | step node ih =>
      have hNames : ((children node).map (·.1)).Nodup :=
        h (path, node) (mem_nodesAt_iff.mpr (Or.inl rfl))
      rw [nodesAt_eq, List.map_cons, List.map_flatMap]
      refine List.nodup_cons.mpr ⟨?_, List.nodup_flatMap.mpr ⟨?_, ?_⟩⟩
      · intro hSelf
        rcases List.mem_flatMap.mp hSelf with ⟨child, _, hPath⟩
        rcases List.mem_map.mp hPath with ⟨located, hLocated, hEq⟩
        exact ne_of_mem_nodesAt_snoc hLocated hEq
      · intro child hChild
        exact ih child hChild (h.below hChild)
      · refine (List.pairwise_map.mp hNames).imp ?_
        intro child other hDifferent shared hShared hShared'
        rcases List.mem_map.mp hShared with ⟨located, hLocated, rfl⟩
        rcases List.mem_map.mp hShared' with ⟨located', hLocated', hEq⟩
        have hFirst := prefix_of_mem_nodesAt hLocated
        have hSecond := prefix_of_mem_nodesAt hLocated'
        rw [hEq] at hSecond
        exact hDifferent (eq_of_snoc_isPrefix hFirst hSecond)

theorem hasDistinctNames_merged (path : List String) (written : Json) :
    HasDistinctNames (nodesAt path written.merged) := by
  have hChildren : ∀ {node : Json} {child : String × Json}, child ∈ children node.merged →
      ∃ inner ∈ children node, child.2 = inner.2.merged := by
    intro node child hChild
    cases node with
    | object members =>
        rw [Json.merged, Json.mergedMembers_eq] at hChild
        rcases List.mem_map.mp (Json.mem_of_mem_mergeMembers hChild) with ⟨inner, hInner, rfl⟩
        exact ⟨inner, hInner, rfl⟩
    | array items =>
        rw [Json.merged, Json.mergedItems_eq] at hChild
        rcases exists_index_of_mem_numbered hChild with ⟨_, _, _, hItem⟩
        rcases List.mem_map.mp hItem with ⟨item, hItem, hEq⟩
        rcases exists_mem_numbered 0 hItem with ⟨name, hNumbered⟩
        exact ⟨(name, item), hNumbered, hEq.symm⟩
    | _ => cases hChild
  induction written using induction_children generalizing path with
  | step written ih =>
      intro located hLocated
      rcases mem_nodesAt_iff.mp hLocated with rfl | ⟨child, hChild, hBelow⟩
      · cases written with
        | object members => exact Json.nodup_mergeMembers _
        | array items => exact nodup_numbered 0 _
        | _ => exact List.nodup_nil
      · rcases hChildren hChild with ⟨inner, hInner, hEq⟩
        rw [hEq] at hBelow
        exact ih inner hInner _ located hBelow

/-!
# Nodes on the way

Whatever initial part of its path is taken, there is a node to which it leads, and the first node
is one of those below.
-/

theorem exists_child_of_mem_nodesAt_cons {base path : List String} {name : String}
    {node target : Json} (h : (base ++ name :: path, target) ∈ nodesAt base node) :
    ∃ value, (name, value) ∈ children node ∧
      ((base ++ [name]) ++ path, target) ∈ nodesAt (base ++ [name]) value := by
  have hSplit : base ++ name :: path = (base ++ [name]) ++ path := by simp
  rw [hSplit] at h
  rcases mem_nodesAt_iff.mp h with hSelf | ⟨⟨other, value⟩, hChild, hBelow⟩
  · have hLength := congrArg (·.1.length) hSelf
    simp only [List.length_append, List.length_singleton] at hLength
    omega
  · have hSame : name = other :=
      eq_of_snoc_isPrefix (List.prefix_append _ path) (prefix_of_mem_nodesAt hBelow)
    rw [← hSame] at hChild hBelow
    exact ⟨value, hChild, hBelow⟩

theorem exists_node_of_prefix {base front behind : List String} {node target : Json}
    (h : (base ++ front ++ behind, target) ∈ nodesAt base node) :
    ∃ middle, (base ++ front, middle) ∈ nodesAt base node ∧
      (base ++ front ++ behind, target) ∈ nodesAt (base ++ front) middle := by
  induction front generalizing base node with
  | nil =>
      rw [List.append_nil] at h ⊢
      exact ⟨node, mem_nodesAt_iff.mpr (Or.inl rfl), h⟩
  | cons name front ih =>
      have hSplit : base ++ name :: front = (base ++ [name]) ++ front := by simp
      have hWhole : base ++ name :: front ++ behind = base ++ name :: (front ++ behind) := by simp
      rw [hWhole] at h
      rcases exists_child_of_mem_nodesAt_cons h with ⟨value, hChild, hBelow⟩
      rw [← List.append_assoc] at hBelow
      rcases ih hBelow with ⟨middle, hMiddle, hTarget⟩
      rw [hSplit]
      exact ⟨middle, mem_nodesAt_iff.mpr (Or.inr ⟨(name, value), hChild, hMiddle⟩), hTarget⟩

/-!
# Names without dots
-/

def IsPlainName (name : String) : Prop :=
  name ≠ "" ∧ '.' ∉ name.toList

instance (name : String) : Decidable (IsPlainName name) :=
  inferInstanceAs (Decidable (_ ∧ _))

def memberNames : Json → List String
  | .object members => members.map (·.1)
  | _ => []

def HasPlainNames (root : Json) : Prop :=
  ∀ located ∈ nodesAt [] root, ∀ name ∈ memberNames located.2, IsPlainName name

instance (root : Json) : Decidable (HasPlainNames root) :=
  inferInstanceAs (Decidable (∀ located ∈ nodesAt [] root, _))

theorem isPlainName_toString (index : Nat) : IsPlainName (toString index) := by
  have hDigits : (toString index).toList = Nat.toDigits 10 index := by
    show (Nat.repr index).toList = _
    rw [Nat.repr, String.toList_ofList]
  constructor
  · intro hEmpty
    rw [hEmpty] at hDigits
    exact Nat.toDigits_ne_nil hDigits.symm
  · rw [hDigits]
    intro hDot
    cases Nat.isDigit_of_mem_toDigits (by decide) (by decide) hDot

theorem isPlainName_of_mem_children {base : List String} {node : Json}
    (hPlain : ∀ located ∈ nodesAt base node, ∀ name ∈ memberNames located.2, IsPlainName name)
    {child : String × Json} (hChild : child ∈ children node) : IsPlainName child.1 := by
  cases node with
  | object members =>
      exact hPlain (base, .object members) (mem_nodesAt_iff.mpr (Or.inl rfl)) child.1
        (List.mem_map.mpr ⟨child, hChild, rfl⟩)
  | array items =>
      rcases exists_index_of_mem_numbered hChild with ⟨index, _, hName, _⟩
      rw [hName]
      exact isPlainName_toString index
  | _ => cases hChild

theorem isPlainName_of_mem_path {base path : List String} {node target : Json}
    (hPlain : ∀ located ∈ nodesAt base node, ∀ name ∈ memberNames located.2, IsPlainName name)
    (h : (base ++ path, target) ∈ nodesAt base node) : ∀ name ∈ path, IsPlainName name := by
  induction path generalizing base node with
  | nil =>
      intro name hName
      cases hName
  | cons name path ih =>
      rcases exists_child_of_mem_nodesAt_cons h with ⟨value, hChild, hBelow⟩
      have hBelowPlain : ∀ located ∈ nodesAt (base ++ [name]) value,
          ∀ name ∈ memberNames located.2, IsPlainName name :=
        fun located hLocated =>
          hPlain located (mem_nodesAt_iff.mpr (Or.inr ⟨(name, value), hChild, hLocated⟩))
      intro other hOther
      rcases List.mem_cons.mp hOther with rfl | hPath
      · exact isPlainName_of_mem_children hPlain hChild
      · exact ih hBelowPlain hBelow other hPath

/-!
# Texts of paths

Taking the last segment off the text of a path undoes the step to a child. A path of plain names is
what its text gives when it is cut at the dots.
-/

theorem walkedText_eq_dotJoined {path : List String} (h : ∀ name ∈ path, IsPlainName name) :
    walkedText path = dotJoined path := by
  rw [walkedText_eq]
  apply dotJoinedFromName_eq_of_not_beginsUnnamed
  intro hUnnamed
  rcases hUnnamed with ⟨name, rest, rfl⟩
  exact (h "" (List.mem_cons_self ..)).1 rfl

theorem splitOn_dotJoined {path : List String} (hNonempty : path ≠ [])
    (h : ∀ name ∈ path, IsPlainName name) :
    Text.splitOn '.' (dotJoined path).toList = path.map String.toList := by
  unfold dotJoined
  rw [String.toList_intercalate]
  apply Text.splitOn_intercalate
  · simpa using hNonempty
  · intro piece hPiece
    rcases List.mem_map.mp hPiece with ⟨name, hName, rfl⟩
    exact (h name hName).2

theorem dotJoined_ne_empty {path : List String} (hNonempty : path ≠ [])
    (h : ∀ name ∈ path, IsPlainName name) : dotJoined path ≠ "" := by
  intro hEmpty
  have hSplit := splitOn_dotJoined hNonempty h
  rw [hEmpty] at hSplit
  cases path with
  | nil => exact hNonempty rfl
  | cons name rest =>
      have hName : [] = name.toList := (List.cons.inj hSplit).1
      exact (h name (List.mem_cons_self ..)).1 (String.toList_eq_nil_iff.mp hName.symm)

theorem walkedText_inj {path other : List String} (hPath : ∀ name ∈ path, IsPlainName name)
    (hOther : ∀ name ∈ other, IsPlainName name) (h : walkedText path = walkedText other) :
    path = other := by
  rw [walkedText_eq_dotJoined hPath, walkedText_eq_dotJoined hOther] at h
  by_cases hNil : path = []
  · subst hNil
    by_contra hNe
    exact dotJoined_ne_empty (Ne.symm hNe) hOther h.symm
  · by_cases hOtherNil : other = []
    · subst hOtherNil
      exact absurd h (dotJoined_ne_empty hNil hPath)
    · have hPieces : path.map String.toList = other.map String.toList := by
        rw [← splitOn_dotJoined hNil hPath, h, splitOn_dotJoined hOtherNil hOther]
      exact List.map_injective_iff.mpr (fun _ _ => String.toList_inj.mp) hPieces

/-!
# Keys
-/

theorem exists_leaf_of_mem_keys {root : Json} {key : String} (h : key ∈ (flatten root).keys) :
    key ≠ "" ∧ ∃ path value, (path, .string value) ∈ nodesAt [] root ∧ walkedText path = key := by
  rw [flatten_eq_listing_walkedText] at h
  rcases List.mem_map.mp (SortedSet.mem_ofList.mp h) with ⟨entry, hEntry, rfl⟩
  rcases List.mem_filterMap.mp hEntry with ⟨⟨path, node⟩, hLocated, hFound⟩
  cases node with
  | string value =>
      by_cases hText : walkedText path = ""
      · rw [entryOf?, if_pos hText] at hFound
        cases hFound
      · rw [entryOf?, if_neg hText] at hFound
        cases hFound
        exact ⟨hText, path, value, hLocated, rfl⟩
  | _ => cases hFound

end Catalog
end CatalogAudit
