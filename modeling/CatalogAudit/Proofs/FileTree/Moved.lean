import CatalogAudit.Proofs.FileTree.WriteRead

/-!
# Another working directory

An absolute path is followed from the top, so the working directory makes no difference to what is
found, read, or written by it.
-/

namespace CatalogAudit
namespace FileTree
namespace Disk

open Utf8 (Bytes)

/-- The same tree with another working directory. -/
def movedTo (disk : Disk) (cwd : Location) : Disk :=
  { disk with cwd := cwd }

section Absolute

variable {path : Path} (hPath : Path.isAbsolute path = true) (disk : Disk) (cwd : Location)
include hPath

theorem startOf_movedTo : (disk.movedTo cwd).startOf path = disk.startOf path := by
  unfold startOf
  rw [if_pos hPath, if_pos hPath]

theorem locate_movedTo (last : Bool) :
    (disk.movedTo cwd).locate last path = disk.locate last path := by
  unfold locate
  rw [startOf_movedTo hPath]
  rfl

theorem resolve_movedTo : (disk.movedTo cwd).resolve path = disk.resolve path := by
  unfold resolve
  rw [locate_movedTo hPath]

theorem exists?_movedTo : (disk.movedTo cwd).exists? path = disk.exists? path := by
  unfold exists?
  rw [resolve_movedTo hPath]

theorem isFile_movedTo : (disk.movedTo cwd).isFile path = disk.isFile path := by
  unfold isFile
  rw [resolve_movedTo hPath]

theorem canonical?_movedTo : (disk.movedTo cwd).canonical? path = disk.canonical? path := by
  unfold canonical?
  rw [startOf_movedTo hPath]
  rfl

theorem listDirectory_movedTo :
    (disk.movedTo cwd).listDirectory path = disk.listDirectory path := by
  unfold listDirectory
  rw [resolve_movedTo hPath]

theorem readBytes_movedTo : (disk.movedTo cwd).readBytes path = disk.readBytes path := by
  unfold readBytes
  rw [resolve_movedTo hPath]

theorem readText_movedTo : (disk.movedTo cwd).readText path = disk.readText path := by
  unfold readText
  rw [readBytes_movedTo hPath]

theorem write_movedTo (content : Bytes) :
    (disk.movedTo cwd).write path content =
      (disk.write path content).map fun written => written.movedTo cwd := by
  have hTop : (disk.movedTo cwd).top = disk.top := rfl
  unfold write
  rw [startOf_movedTo hPath, locate_movedTo hPath, hTop]
  split
  · cases checkPath path with
    | error fault => rfl
    | ok _ =>
        simp only [bind, Except.bind]
        generalize followLinks anyAccess disk.top true maxLinks (disk.startOf path) _ = result
        cases result with
        | error fault => rfl
        | ok target => rfl
  · cases disk.locate true path with
    | error fault => rfl
    | ok target =>
        cases target with
        | absent directory name =>
            simp only [bind, Except.bind]
            cases disk.top.entriesAt? directory with
            | none => rfl
            | some entries => rfl
        | present location node =>
            cases node with
            | link target => rfl
            | directory entries => rfl
            | file old =>
                simp only [bind, Except.bind]
                cases location.reverse with
                | nil => rfl
                | cons name rest => rfl

end Absolute

end Disk
end FileTree
end CatalogAudit
