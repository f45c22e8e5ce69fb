import CatalogAudit.Digest
import CatalogAudit.Fault
import CatalogAudit.FileTree.Resolve

/-!
# Source files

A source file is read once and kept under a normalized name together with a digest of name and
content. Bytes that are no characters are shown as replacement characters, so that every file has
a text.
-/

namespace CatalogAudit

structure SourceFile where
  name : String
  content : String
  hash : String
  hash_eq : hash = Digest.fingerprint name content
deriving DecidableEq

namespace SourceFile

def make (name content : String) : SourceFile :=
  ⟨name, content, Digest.fingerprint name content, rfl⟩

def ofBytes (name : String) (bytes : Utf8.Bytes) : SourceFile :=
  make name (lossyTextOf bytes)

def load (disk : FileTree.Disk) (root path : Path) : Except Fault SourceFile := do
  let bytes ← withContext .file (.readSource path) (disk.readBytes path)
  return ofBytes (Path.nameBelow root path) bytes

/-- Reads all files, in order. The first that cannot be read fails the whole. -/
def loadAll (disk : FileTree.Disk) (root : Path) (paths : List Path) :
    Except Fault (List SourceFile) :=
  paths.mapM (load disk root)

end SourceFile
end CatalogAudit
