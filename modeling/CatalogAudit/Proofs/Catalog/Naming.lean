import CatalogAudit.Catalog.Flatten
import Mathlib

/-!
# The naming law of catalogs

Every node of a catalog has a path, the list of the names and indices that lead to it. The naming
law says that a message is called by all segments of its path with dots between them. The walk
builds the text of a path from the text before it and cannot tell an empty text from no text, so
empty segments at the start of a path leave no trace. This module says what the walk lists, and for
which catalogs that is what the naming law asks for.
-/

namespace CatalogAudit
namespace Catalog

/-!
# Nodes and their paths

The nodes of a value in document order, each before the nodes below it.
-/

abbrev Located := List String × Json

mutual

def nodesAt (path : List String) : Json → List Located
  | .array items => (path, .array items) :: itemNodesAt path 0 items
  | .object members => (path, .object members) :: memberNodesAt path members
  | .null => [(path, .null)]
  | .bool b => [(path, .bool b)]
  | .number n => [(path, .number n)]
  | .string s => [(path, .string s)]

def itemNodesAt (path : List String) : Nat → List Json → List Located
  | _, [] => []
  | index, item :: items =>
      nodesAt (path ++ [toString index]) item ++ itemNodesAt path (index + 1) items

def memberNodesAt (path : List String) : List (String × Json) → List Located
  | [] => []
  | (name, value) :: members => nodesAt (path ++ [name]) value ++ memberNodesAt path members

end

/-!
# Listings

What a catalog lists depends on how the text of a path is made. A string leaf whose path has no
text is left out.
-/

def entryOf? (text : List String → String) : Located → Option Entry
  | (path, .string value) => if text path = "" then none else some ⟨text path, value⟩
  | _ => none

def warningOf? (text : List String → String) : Located → Option Warning
  | (path, .array _) => some ⟨.array, text path⟩
  | _ => none

def listing (text : List String → String) (nodes : List Located) : FlatCatalog :=
  ⟨nodes.filterMap (entryOf? text), nodes.filterMap (warningOf? text)⟩

def dotJoined (path : List String) : String :=
  ".".intercalate path

/-- The segments from the first one on that is not empty. -/
def dotJoinedFromName (path : List String) : String :=
  dotJoined (path.dropWhile (· = ""))

/-- What the naming law asks for. -/
def lawfulListing (root : Json) : FlatCatalog :=
  listing dotJoined (nodesAt [] root)

/-!
# The walk lists the nodes

The text that goes with a pending node is built up name by name. The walk takes a node with all
nodes below it off the list before it turns to the next one.
-/

def walkedText (path : List String) : String :=
  path.foldl KeyPath.child ""

theorem walkedText_snoc (path : List String) (name : String) :
    walkedText (path ++ [name]) = KeyPath.child (walkedText path) name := by
  unfold walkedText
  rw [List.foldl_append]
  rfl

instance : Append FlatCatalog where
  append e f := ⟨e.entries ++ f.entries, e.warnings ++ f.warnings⟩

theorem listing_append (text : List String → String) (nodes more : List Located) :
    listing text (nodes ++ more) = listing text nodes ++ listing text more := by
  unfold listing
  rw [List.filterMap_append, List.filterMap_append]
  rfl

theorem append_append (e f g : FlatCatalog) : (e ++ f) ++ g = e ++ (f ++ g) := by
  show FlatCatalog.mk _ _ = FlatCatalog.mk _ _
  congr 1
  · exact List.append_assoc _ _ _
  · exact List.append_assoc _ _ _

mutual

theorem visit_cons (path : List String) (node : Json) (pending : List Pending) :
    visit ((node, walkedText path) :: pending) =
      listing walkedText (nodesAt path node) ++ visit pending := by
  cases node with
  | null => rw [visit]; rfl
  | bool b => rw [visit]; rfl
  | number n => rw [visit]; rfl
  | string value =>
      rw [visit]
      by_cases hEmpty : walkedText path = ""
      · rw [if_pos hEmpty]
        simp only [nodesAt, listing, List.filterMap, entryOf?, warningOf?, hEmpty]
        rfl
      · rw [if_neg hEmpty]
        simp only [nodesAt, listing, List.filterMap, entryOf?, warningOf?, hEmpty]
        rfl
  | object members =>
      rw [visit, visit_memberNodes path members pending]
      rfl
  | array items =>
      rw [visit, visit_itemNodes path 0 items pending]
      rfl

theorem visit_itemNodes (path : List String) (index : Nat) (items : List Json)
    (pending : List Pending) :
    visit (itemNodesFrom (walkedText path) index items ++ pending) =
      listing walkedText (itemNodesAt path index items) ++ visit pending := by
  cases items with
  | nil => rfl
  | cons item items =>
      rw [itemNodesFrom, itemNodesAt, ← walkedText_snoc, List.cons_append, visit_cons,
        visit_itemNodes path (index + 1) items pending, listing_append, append_append]

theorem visit_memberNodes (path : List String) (members : List (String × Json))
    (pending : List Pending) :
    visit (memberNodes (walkedText path) members ++ pending) =
      listing walkedText (memberNodesAt path members) ++ visit pending := by
  cases members with
  | nil => rfl
  | cons member members =>
      obtain ⟨name, value⟩ := member
      have hSplit : memberNodes (walkedText path) ((name, value) :: members) ++ pending =
          (value, walkedText (path ++ [name])) ::
            (memberNodes (walkedText path) members ++ pending) := by
        rw [walkedText_snoc]
        rfl
      rw [hSplit, memberNodesAt, visit_cons, visit_memberNodes path members pending,
        listing_append, append_append]

end

theorem flatten_eq_listing_walkedText (root : Json) :
    flatten root = listing walkedText (nodesAt [] root) := by
  have hVisit := visit_cons [] root []
  have hNil : visit [] = ⟨[], []⟩ := by rw [visit]
  unfold flatten
  show visit [(root, walkedText [])] = _
  rw [hVisit, hNil]
  show FlatCatalog.mk _ _ = _
  rw [List.append_nil, List.append_nil]

/-!
# Empty segments at the start

As long as all segments so far are empty the text is empty too, and the next segment is taken for
the first one.
-/

theorem foldl_child_of_ne_empty {text : String} (h : text ≠ "") (path : List String) :
    path.foldl KeyPath.child text = dotJoined (text :: path) := by
  induction path generalizing text with
  | nil => simp [dotJoined]
  | cons name path ih =>
      have hChild : KeyPath.child text name = text ++ "." ++ name := if_neg h
      have hNonempty : text ++ "." ++ name ≠ "" := by
        intro hEmpty
        have hLength := congrArg String.length hEmpty
        simp at hLength
      rw [List.foldl_cons, hChild, ih hNonempty]
      unfold dotJoined
      rw [String.intercalate_cons_append, String.intercalate_cons_cons]

theorem walkedText_eq (path : List String) : walkedText path = dotJoinedFromName path := by
  unfold walkedText dotJoinedFromName
  induction path with
  | nil => rfl
  | cons name path ih =>
      have hChild : KeyPath.child "" name = name := if_pos rfl
      rw [List.foldl_cons, hChild]
      by_cases hEmpty : name = ""
      · rw [hEmpty, ih, List.dropWhile_cons_of_pos (by simp)]
      · rw [foldl_child_of_ne_empty hEmpty, List.dropWhile_cons_of_neg (by simpa using hEmpty)]

theorem flatten_eq_listing (root : Json) :
    flatten root = listing dotJoinedFromName (nodesAt [] root) := by
  rw [flatten_eq_listing_walkedText, funext walkedText_eq]

/-!
# Where text is lost

A path loses text if and only if it begins with an empty segment and goes on. What a catalog lists
then has less text in all than the naming law asks for, so the two differ.
-/

/-- The first of at least two segments is empty. -/
def BeginsUnnamed (path : List String) : Prop :=
  ∃ name rest, path = "" :: name :: rest

theorem dotJoinedFromName_eq_of_not_beginsUnnamed {path : List String}
    (h : ¬BeginsUnnamed path) : dotJoinedFromName path = dotJoined path := by
  unfold dotJoinedFromName
  cases path with
  | nil => rfl
  | cons name path =>
      by_cases hEmpty : name = ""
      · cases path with
        | nil => rw [hEmpty]; rfl
        | cons next rest => exact absurd ⟨next, rest, by rw [hEmpty]⟩ h
      · rw [List.dropWhile_cons_of_neg (by simpa using hEmpty)]

theorem length_dotJoined_cons_cons (name next : String) (rest : List String) :
    (dotJoined (name :: next :: rest)).length =
      name.length + 1 + (dotJoined (next :: rest)).length := by
  unfold dotJoined
  rw [String.intercalate_cons_cons, String.length_append, String.length_append]
  rfl

theorem length_dotJoinedFromName_le (path : List String) :
    (dotJoinedFromName path).length ≤ (dotJoined path).length := by
  induction path with
  | nil => exact Nat.le_refl _
  | cons name path ih =>
      by_cases hEmpty : name = ""
      · have hDrop : dotJoinedFromName (name :: path) = dotJoinedFromName path := by
          unfold dotJoinedFromName
          rw [List.dropWhile_cons_of_pos (by simpa using hEmpty)]
        rw [hDrop]
        cases path with
        | nil => exact Nat.zero_le _
        | cons next rest =>
            rw [length_dotJoined_cons_cons]
            omega
      · have hKeep : ¬BeginsUnnamed (name :: path) := by
          intro h
          rcases h with ⟨next, rest, hPath⟩
          exact hEmpty (List.cons.inj hPath).1
        rw [dotJoinedFromName_eq_of_not_beginsUnnamed hKeep]

theorem length_dotJoinedFromName_lt {path : List String} (h : BeginsUnnamed path) :
    (dotJoinedFromName path).length < (dotJoined path).length := by
  rcases h with ⟨name, rest, hPath⟩
  subst hPath
  have hDrop : dotJoinedFromName ("" :: name :: rest) = dotJoinedFromName (name :: rest) := by
    unfold dotJoinedFromName
    rw [List.dropWhile_cons_of_pos (by simp)]
  have hLe := length_dotJoinedFromName_le (name :: rest)
  rw [hDrop, length_dotJoined_cons_cons]
  omega

/-- String leaves are listed by their text, and arrays are warned of. -/
def isListed : Json → Bool
  | .string _ => true
  | .array _ => true
  | _ => false

def FlatCatalog.textLength (found : FlatCatalog) : Nat :=
  (found.entries.map (·.key.length)).sum + (found.warnings.map (·.path.length)).sum

def listedLength (text : List String → String) (located : Located) : Nat :=
  if isListed located.2 then (text located.1).length else 0

theorem textLength_append (e f : FlatCatalog) :
    (e ++ f).textLength = e.textLength + f.textLength := by
  show ((e.entries ++ f.entries).map _).sum + ((e.warnings ++ f.warnings).map _).sum = _
  rw [List.map_append, List.map_append, List.sum_append, List.sum_append]
  unfold FlatCatalog.textLength
  omega

theorem textLength_listing_singleton (text : List String → String) (located : Located) :
    (listing text [located]).textLength = listedLength text located := by
  obtain ⟨path, node⟩ := located
  cases node with
  | array items => exact Nat.zero_add _
  | string value =>
      by_cases hEmpty : text path = ""
      · have hNone : listing text [(path, .string value)] = ⟨[], []⟩ := by
          simp [listing, entryOf?, warningOf?, hEmpty]
        simp [hNone, listedLength, isListed, hEmpty, FlatCatalog.textLength]
      · have hOne : listing text [(path, .string value)] = ⟨[⟨text path, value⟩], []⟩ := by
          simp [listing, entryOf?, warningOf?, hEmpty]
        simp [hOne, listedLength, isListed, FlatCatalog.textLength]
  | _ => rfl

theorem textLength_listing (text : List String → String) (nodes : List Located) :
    (listing text nodes).textLength = (nodes.map (listedLength text)).sum := by
  induction nodes with
  | nil => rfl
  | cons located nodes ih =>
      have hSplit := listing_append text [located] nodes
      rw [List.singleton_append] at hSplit
      rw [hSplit, textLength_append, textLength_listing_singleton, ih, List.map_cons,
        List.sum_cons]

theorem listing_eq_of_not_beginsUnnamed {nodes : List Located}
    (h : ∀ located ∈ nodes, isListed located.2 = true → ¬BeginsUnnamed located.1) :
    listing dotJoinedFromName nodes = listing dotJoined nodes := by
  have hText : ∀ located ∈ nodes, isListed located.2 = true →
      dotJoinedFromName located.1 = dotJoined located.1 :=
    fun located hMem hListed => dotJoinedFromName_eq_of_not_beginsUnnamed (h located hMem hListed)
  unfold listing
  congr 1
  · apply List.filterMap_congr
    intro located hMem
    obtain ⟨path, node⟩ := located
    cases node with
    | string value =>
        have hEq := hText _ hMem rfl
        simp only [entryOf?, hEq]
    | _ => rfl
  · apply List.filterMap_congr
    intro located hMem
    obtain ⟨path, node⟩ := located
    cases node with
    | array items =>
        have hEq := hText _ hMem rfl
        simp only [warningOf?, hEq]
    | _ => rfl

theorem listing_ne_of_beginsUnnamed {nodes : List Located} {located : Located}
    (hMem : located ∈ nodes) (hListed : isListed located.2 = true)
    (hUnnamed : BeginsUnnamed located.1) :
    listing dotJoinedFromName nodes ≠ listing dotJoined nodes := by
  intro hEq
  have hLe : ∀ other ∈ nodes,
      listedLength dotJoinedFromName other ≤ listedLength dotJoined other := by
    intro other _
    unfold listedLength
    split
    · exact length_dotJoinedFromName_le other.1
    · exact Nat.le_refl _
  have hLt : listedLength dotJoinedFromName located < listedLength dotJoined located := by
    unfold listedLength
    rw [if_pos hListed, if_pos hListed]
    exact length_dotJoinedFromName_lt hUnnamed
  have hSums := List.sum_lt_sum _ _ hLe ⟨located, hMem, hLt⟩
  rw [← textLength_listing, ← textLength_listing, hEq] at hSums
  exact Nat.lt_irrefl _ hSums

/-!
# When the naming law holds
-/

/--
A catalog lists its string leaves and arrays in document order, each under the segments of its path
from the first one on that is not empty. This is what the naming law asks for if and only if no
such node lies below an unnamed member of the root.
-/
theorem flatten_eq_lawfulListing_iff (root : Json) :
    flatten root = listing dotJoinedFromName (nodesAt [] root) ∧
      (flatten root = lawfulListing root ↔
        ∀ located ∈ nodesAt [] root, isListed located.2 = true → ¬BeginsUnnamed located.1) := by
  refine ⟨flatten_eq_listing root, ?_⟩
  rw [flatten_eq_listing]
  constructor
  · intro hLawful located hMem hListed hUnnamed
    exact listing_ne_of_beginsUnnamed hMem hListed hUnnamed hLawful
  · intro hNamed
    exact listing_eq_of_not_beginsUnnamed hNamed

theorem flatten_unnamed_member :
    flatten (.object [("", .object [("a", .string "x")])]) = ⟨[⟨"a", "x"⟩], []⟩ ∧
      lawfulListing (.object [("", .object [("a", .string "x")])]) = ⟨[⟨".a", "x"⟩], []⟩ := by
  rw [flatten_eq_listing]
  decide

end Catalog
end CatalogAudit
