import CatalogAudit.Catalog.Flatten
import CatalogAudit.Fault
import CatalogAudit.FileTree.Resolve
import CatalogAudit.Json.Document

/-!
# Catalog files

A catalog is a JSON file. It is read as a whole, parsed, and flattened.
-/

namespace CatalogAudit
namespace Catalog

def load (disk : FileTree.Disk) (path : Path) : Except Fault FlatCatalog := do
  let text ← withContext .file (.readCatalog path) (disk.readText path)
  let root ← withContext .json (.parseCatalog path) (Json.parse (bytesOf text))
  return flatten root

end Catalog
end CatalogAudit
