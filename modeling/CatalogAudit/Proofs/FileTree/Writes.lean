import CatalogAudit.Proofs.FileTree.Beside

/-!
# What a write does

A write puts a file at the place that its path leads to, and the path leads to that file from then
on. Writing the same content to the same path once more changes nothing.
-/

namespace CatalogAudit
namespace FileTree

open Utf8 (Bytes)

/-!
# Putting the same file again
-/

theorem putEntry_putEntry (name : Name) (node : Node) (entries : Entries) :
    putEntry name node (putEntry name node entries) = putEntry name node entries := by
  induction entries with
  | nil => simp [putEntry, List.lt_irrefl]
  | cons head rest ih =>
      obtain ⟨name', node'⟩ := head
      by_cases hLess : name < name'
      · simp [putEntry, hLess, List.lt_irrefl]
      · by_cases hGreater : name' < name
        · simp [putEntry, hLess, hGreater, ih]
        · simp [putEntry, hLess, hGreater, List.lt_irrefl]

theorem Node.put_put_self (tree : Node) (location : Location) (name : Name) (node : Node) :
    (tree.put location name node).put location name node = tree.put location name node := by
  induction location generalizing tree with
  | nil =>
      cases tree with
      | file content => rfl
      | link target => rfl
      | directory entries =>
          show Node.directory (putEntry name node (putEntry name node entries)) = _
          rw [putEntry_putEntry]
          rfl
  | cons first location ih =>
      cases tree with
      | file content => rfl
      | link target => rfl
      | directory entries =>
          cases hChild : entries.lookup first with
          | none => rw [put_directory_cons_of_none hChild, put_directory_cons_of_none hChild]
          | some child =>
              have hInner : (putEntry first (child.put location name node) entries).lookup first =
                  some (child.put location name node) := by
                rw [lookup_putEntry, if_pos rfl]
              rw [put_directory_cons hChild, put_directory_cons hInner, ih, putEntry_putEntry]

namespace Disk

/-!
# Where a file can be written
-/

theorem endsInSlash_of_write {disk disk' : Disk} {path : Path} {content : Bytes}
    (h : disk.write path content = .ok disk') : endsInSlash path = false := by
  cases hSlash : endsInSlash path with
  | false => rfl
  | true =>
      unfold write at h
      rw [if_pos hSlash] at h
      simp only [bind_eq_ok] at h
      rcases h with ⟨_, _, _, _, hError⟩
      cases hError

theorem write_of_endsAt {disk : Disk} {path : Path} (hSlash : endsInSlash path = false)
    {directory : Location} {name : Name} (hDirectory : disk.top.IsDirectoryAt directory)
    (h : EndsAt directory name (disk.locate true path))
    (content : Bytes) :
    disk.write path content =
      .ok { disk with top := disk.top.put directory name (.file content) } := by
  rcases h with hAbsent | ⟨old, hPresent⟩
  · exact write_of_absent hSlash hDirectory hAbsent content
  · have hReverse : (directory ++ [name]).reverse = name :: directory.reverse := by simp
    unfold write
    rw [hSlash, hPresent]
    simp only [Bool.false_eq_true, if_false, bind, Except.bind, hReverse, List.reverse_reverse]
    rfl

theorem endsInSlash_join {root : Path} (hRoot : root ≠ []) {name : Name}
    (hName : Path.IsPart name) : endsInSlash (Path.join root name) = false := by
  rcases Path.exists_pieces_join hRoot hName.noSlash with ⟨front, _, _, hJoin⟩
  have hLast : (front ++ [name]).reverse = name :: front.reverse := by simp
  unfold endsInSlash
  rw [hJoin, hLast]
  split
  · rename_i hEmpty
    exact absurd (Or.inl (List.cons.inj hEmpty).1) hName.notSkipped
  · rfl

/-- A file can be written where the path ends at a file or at a free name of a directory. -/
theorem exists_write_iff {disk : Disk} {path : Path} (content : Bytes) :
    (∃ disk', disk.write path content = .ok disk') ↔
      endsInSlash path = false ∧
        ∃ directory name, disk.top.IsDirectoryAt directory ∧
          EndsAt directory name (disk.locate true path) := by
  constructor
  · intro h
    rcases h with ⟨disk', hWrite⟩
    rcases write_eq_ok hWrite with ⟨directory, name, hDirectory, hEnds, _⟩
    exact ⟨endsInSlash_of_write hWrite, directory, name, hDirectory, hEnds⟩
  · intro h
    rcases h with ⟨hSlash, directory, name, hDirectory, hEnds⟩
    exact ⟨_, write_of_endsAt hSlash hDirectory hEnds content⟩

theorem write_write_self {disk disk' : Disk} {path : Path} {content : Bytes}
    (h : disk.write path content = .ok disk') : disk'.write path content = .ok disk' := by
  have hSlash := endsInSlash_of_write h
  rcases write_eq_ok h with ⟨directory, name, ⟨entries, hEntries⟩, hEnds, rfl⟩
  have hTops := agreeBeside_put (isFilePlace_of_endsAt hEnds) content
  have hInside : ({ disk with top := disk.top.put directory name (.file content) } :
      Disk).top.IsDirectoryAt directory := directory_of_agreeBeside hTops hEntries
  refine (write_of_endsAt hSlash hInside (endsAt_locate_put hEnds content) content).trans ?_
  simp only [Node.put_put_self]

end Disk
end FileTree
end CatalogAudit
