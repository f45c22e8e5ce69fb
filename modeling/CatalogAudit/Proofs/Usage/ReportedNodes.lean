import CatalogAudit.Proofs.Catalog.NodePaths
import CatalogAudit.Proofs.Usage.Ignoring
import CatalogAudit.Proofs.Usage.Staircase

/-!
# Reported texts and nodes of the catalog

A key is put together from the names on the way to a leaf, and the passes take it apart again at
its dots. As long as no name is empty or holds a dot, each cut is one step back towards the root, so
whatever is reported is the text of a node, and of no other node.
-/

namespace CatalogAudit

namespace KeyPath

/-!
# Cutting undoes the step to a child
-/

theorem initial_of_not_mem {key : List Char} (h : '.' ∉ key) : initial key = [] := by
  have hDrop : key.reverse.dropWhile (· ≠ '.') = [] := by
    rw [List.dropWhile_eq_nil_iff]
    intro c hc
    simpa using fun hDot : c = '.' => h (hDot ▸ List.mem_reverse.mp hc)
  rw [initial, hDrop]
  rfl

theorem initial_append_dot {path name : List Char} (h : '.' ∉ name) :
    initial (path ++ '.' :: name) = path := by
  have hDrop : (path ++ '.' :: name).reverse.dropWhile (· ≠ '.') = '.' :: path.reverse := by
    have hName : ∀ c ∈ name.reverse, decide (c ≠ '.') = true := by
      intro c hc
      simpa using fun hDot : c = '.' => h (hDot ▸ List.mem_reverse.mp hc)
    rw [List.reverse_append, List.reverse_cons, List.append_assoc,
      List.dropWhile_append_of_pos hName, List.singleton_append,
      List.dropWhile_cons_of_neg (by simp)]
  rw [initial, hDrop, List.drop_one, List.tail_cons, List.reverse_reverse]

theorem dropLast_child (path : String) {name : String} (h : '.' ∉ name.toList) :
    dropLast (child path name) = path := by
  unfold child dropLast
  by_cases hRoot : path = ""
  · rw [if_pos hRoot, initial_of_not_mem h, hRoot, String.ofList_nil]
  · rw [if_neg hRoot]
    have hList : (path ++ "." ++ name).toList = path.toList ++ '.' :: name.toList := by simp
    rw [hList, initial_append_dot h, String.ofList_toList]

end KeyPath

namespace Usage

open Catalog (HasPlainNames IsPlainName flatten nodesAt walkedText)

theorem cut_walkedText (path : List String) {below : List String}
    (h : ∀ name ∈ below, '.' ∉ name.toList) :
    cut below.length (walkedText (path ++ below)) = walkedText path := by
  induction below using List.reverseRecOn with
  | nil => rw [List.append_nil, List.length_nil, cut_zero]
  | append_singleton front name ih =>
      have hFront : ∀ other ∈ front, '.' ∉ other.toList :=
        fun other hOther => h other (List.mem_append_left [name] hOther)
      have hName : '.' ∉ name.toList :=
        h name (List.mem_append_right front (List.mem_singleton_self name))
      rw [← List.append_assoc, Catalog.walkedText_snoc, List.length_append,
        List.length_singleton, cut, Function.iterate_succ_apply, KeyPath.dropLast_child _ hName]
      exact ih hFront

theorem cut_empty (depth : Nat) : cut depth "" = "" := by
  induction depth with
  | zero => rfl
  | succ depth ih => rw [cut_succ, ih, dropLast_empty]

/-- A cut that leaves something goes back along the path and not beyond the root. -/
theorem exists_append_of_cut_ne_empty {path : List String} {depth : Nat}
    (hPlain : ∀ name ∈ path, IsPlainName name) (h : cut depth (walkedText path) ≠ "") :
    ∃ front behind, path = front ++ behind ∧ behind.length = depth ∧
      cut depth (walkedText path) = walkedText front := by
  have hBound : depth ≤ path.length := by
    apply Nat.le_of_not_lt
    intro hLong
    apply h
    have hRoot : cut path.length (walkedText path) = "" :=
      cut_walkedText [] fun name hName => (hPlain name hName).2
    have hSum : depth = (depth - path.length) + path.length := by omega
    rw [hSum, cut, Function.iterate_add_apply]
    show cut (depth - path.length) (cut path.length (walkedText path)) = ""
    rw [hRoot, cut_empty]
  have hSplit := List.take_append_drop (path.length - depth) path
  have hLength : (path.drop (path.length - depth)).length = depth := by
    rw [List.length_drop]
    omega
  have hBehind : ∀ name ∈ path.drop (path.length - depth), '.' ∉ name.toList :=
    fun name hName => (hPlain name (List.mem_of_mem_drop hName)).2
  have hCut := cut_walkedText (path.take (path.length - depth)) hBehind
  rw [hLength, hSplit] at hCut
  exact ⟨_, _, hSplit.symm, hLength, hCut⟩

/-!
# What is reported
-/

theorem exists_cut_of_reports {maxDepth : DepthBound} {keys : KeySet} {files : List SourceFile}
    {cache : Option MatchCache} {depth : Nat} {text : String} (hKeys : "" ∉ keys)
    (h : Reports (run maxDepth keys files cache).findings (depth + 1) text) :
    text ≠ "" ∧ ∃ key ∈ keys, text = cut depth key := by
  rcases exists_survivors_of_reports h with ⟨place, survivors, hPlace, hSurvivors, hText⟩
  cases hPlace
  have hBefore : text ∈ setBefore keys (passes maxDepth files 0 keys cache).survivors
      (depth + 1) := by
    rw [setBefore, hSurvivors]
    exact hText
  rcases exists_cut_of_mem_candidatesAt (mem_setBefore_succ hBefore) with ⟨key, hKey, hCut, _⟩
  refine ⟨?_, key, hKey, hCut⟩
  intro hEmpty
  exact not_mem_empty_setBefore hKeys (depth + 1) (hEmpty ▸ hBefore)

/-!
# Nodes with a given text
-/

/-- The text of the node belongs to no other node, and so far below the node is a string leaf. -/
structure StandsFor (nodes : List Catalog.Located) (text : String) (depth : Nat)
    (path : List String) (node : Json) : Prop where
  only : nodes.filter (fun located => walkedText located.1 = text) = [(path, node)]
  leaf : ∃ below value, below.length = depth ∧ (path ++ below, .string value) ∈ nodesAt path node
  self : depth = 0 → ∃ value, node = .string value

theorem filter_walkedText {root : Json} (hNames : Catalog.HasDistinctNames (nodesAt [] root))
    (hPlain : HasPlainNames root) {path : List String} {node : Json}
    (h : (path, node) ∈ nodesAt [] root) :
    (nodesAt [] root).filter (fun located => walkedText located.1 = walkedText path) =
      [(path, node)] := by
  have hNodup := hNames.nodup_paths
  apply List.perm_singleton.mp
  rw [List.perm_ext_iff_of_nodup (hNodup.of_map.filter _) (List.nodup_singleton _)]
  intro located
  rw [List.mem_filter, decide_eq_true_eq, List.mem_singleton]
  constructor
  · intro hMem
    rcases hMem with ⟨hLocated, hText⟩
    apply List.inj_on_of_nodup_map hNodup hLocated h
    exact Catalog.walkedText_inj (Catalog.isPlainName_of_mem_path hPlain hLocated)
      (Catalog.isPlainName_of_mem_path hPlain h) hText
  · intro hEq
    rw [hEq]
    exact ⟨h, rfl⟩

/--
Whatever a run reports, at any depth and with any cache, is the text of exactly one node of the
catalog, and a string leaf is as many levels below it as segments have been cut.
-/
theorem exists_standsFor_of_reports {written : Json} (hPlain : HasPlainNames written.merged)
    (maxDepth : DepthBound) (prefixes : List String) (files : List SourceFile)
    (cache : Option MatchCache) {depth : Nat} {text : String}
    (h : Reports (run maxDepth (IgnoreList.apply prefixes (flatten written.merged).keys) files
      cache).findings (depth + 1) text) :
    ∃ path node, StandsFor (nodesAt [] written.merged) text depth path node := by
  have hEmpty : "" ∉ IgnoreList.apply prefixes (flatten written.merged).keys :=
    fun hMem => (Catalog.exists_leaf_of_mem_keys (IgnoreList.mem_apply.mp hMem).1).1 rfl
  rcases exists_cut_of_reports hEmpty h with ⟨hText, key, hKept, hCut⟩
  rcases Catalog.exists_leaf_of_mem_keys (IgnoreList.mem_apply.mp hKept).1 with
    ⟨_, leafPath, value, hLeaf, rfl⟩
  have hLeafPlain := Catalog.isPlainName_of_mem_path hPlain hLeaf
  rw [hCut] at hText
  rcases exists_append_of_cut_ne_empty hLeafPlain hText with
    ⟨path, below, rfl, hDepth, hWalked⟩
  rcases Catalog.exists_node_of_prefix hLeaf with ⟨node, hNode, hBelow⟩
  refine ⟨path, node, ?_⟩
  constructor
  case only =>
    rw [hCut, hWalked]
    exact filter_walkedText (Catalog.hasDistinctNames_merged [] written) hPlain hNode
  case leaf => exact ⟨below, value, hDepth, hBelow⟩
  case self =>
    intro hZero
    have hNil : below = [] := List.length_eq_zero_iff.mp (hDepth.trans hZero)
    rw [hNil, List.append_nil] at hBelow
    exact ⟨value, Catalog.eq_of_mem_nodesAt_self hBelow⟩

def recentCatalog : Json :=
  .object [("home", .array []),
    ("menu", .object [("file", .object [("open", .string "Open"), ("close", .string "Close")]),
      ("recent", .array [.string "One", .object [("name", .string "Two")]])]),
    ("home", .string "Home")]

def recentFile : SourceFile := .make "x.ts" "t(home)"

def recentCache : MatchCache where
  path := bytesOf ".i18n-validator.json"
  records := .ofList [("x.ts", ⟨recentFile.hash, .ofList ["menu.recent.0"]⟩)]

/-- The array is reported, two levels above the one leaf in it that neither is ignored nor found. -/
theorem exists_standsFor_recentCatalog :
    HasPlainNames recentCatalog.merged ∧
      Reports (run .unbounded
        (IgnoreList.apply ["menu.file.close"] (flatten recentCatalog.merged).keys) [recentFile]
        (some recentCache)).findings 3 "menu.recent" ∧
      ∃ path node, StandsFor (nodesAt [] recentCatalog.merged) "menu.recent" 2 path node := by
  have hPlain : HasPlainNames recentCatalog.merged := by
    decide +kernel
  have hDepth : (run .unbounded
      (IgnoreList.apply ["menu.file.close"] (flatten recentCatalog.merged).keys) [recentFile]
      (some recentCache)).findings.depths.get? 3 = some (.ofList ["menu", "menu.recent"]) := by
    rw [Catalog.flatten_eq_listing]
    decide +kernel
  have hReports := show Reports _ 3 "menu.recent" from ⟨_, hDepth, by decide⟩
  exact ⟨hPlain, hReports, exists_standsFor_of_reports hPlain .unbounded ["menu.file.close"]
    [recentFile] (some recentCache) hReports⟩

end Usage
end CatalogAudit
