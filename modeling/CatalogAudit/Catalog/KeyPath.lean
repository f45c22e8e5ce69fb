import CatalogAudit.Ordered.Set

/-!
# Key paths

A key names a message by the path that leads to it, with a dot between the segments. Member names
may hold dots themselves, and nothing tells these from the dots between segments.
-/

namespace CatalogAudit

abbrev KeySet := SortedSet String

namespace KeyPath

/-- The path of a child. Below the root it is the child's own name. -/
def child (path name : String) : String :=
  if path = "" then name else path ++ "." ++ name

/-- All characters before the last dot, or none if there is no dot. -/
def initial (key : List Char) : List Char :=
  ((key.reverse.dropWhile (· ≠ '.')).drop 1).reverse

def dropLast (key : String) : String :=
  String.ofList (initial key.toList)

@[simp] theorem toList_dropLast (key : String) : (dropLast key).toList = initial key.toList := by
  simp [dropLast]

theorem initial_isPrefix (key : List Char) : initial key <+: key := by
  unfold initial
  have hSuffix : (key.reverse.dropWhile (· ≠ '.')).drop 1 <:+ key.reverse :=
    (List.drop_suffix 1 _).trans (List.dropWhile_suffix _)
  simpa using List.reverse_prefix.mpr hSuffix

end KeyPath
end CatalogAudit
