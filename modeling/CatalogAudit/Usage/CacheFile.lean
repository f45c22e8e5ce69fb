import CatalogAudit.Json.Printer
import CatalogAudit.Json.Record
import CatalogAudit.Usage.MatchCache

/-!
# The cache file

The cache is written as a list of rows, one for each record with keys, ascending by name and by
key. Reading it back gives the same records. A cache file that cannot be used counts as empty.
-/

namespace CatalogAudit

structure CacheRow where
  path : String
  hash : String
  keys : List String
deriving DecidableEq, Repr

namespace CacheRow

def toJson (row : CacheRow) : Json :=
  .object [("path", .string row.path), ("hash", .string row.hash),
    ("keys", .array (row.keys.map .string))]

/-!
# Reading rows
-/

structure Draft where
  path : Option String
  hash : Option String
  keys : Option (List String)

def fields : List (Json.Field Draft) :=
  [⟨"path", (·.path.isSome), fun draft c => do
      let (value, c) ← Json.readText c
      return ({ draft with path := some value }, c)⟩,
    ⟨"hash", (·.hash.isSome), fun draft c => do
      let (value, c) ← Json.readText c
      return ({ draft with hash := some value }, c)⟩,
    ⟨"keys", (·.keys.isSome), fun draft c => do
      let (value, c) ← Json.readList Json.readText c
      return ({ draft with keys := some value }, c)⟩]

def complete (draft : Draft) : Except Json.Reason CacheRow :=
  match draft.path, draft.hash, draft.keys with
  | some path, some hash, some keys => .ok ⟨path, hash, keys⟩
  | none, _, _ => .error (.missingField "path")
  | some _, none, _ => .error (.missingField "hash")
  | some _, some _, none => .error (.missingField "keys")

def shape : Json.Shape Draft CacheRow where
  expected := "struct RawRecord"
  blank := ⟨none, none, none⟩
  fields := fields
  complete := complete
  completeShort given _ := .error (.wrongLength given "struct RawRecord with 3 elements")

end CacheRow

namespace MatchCache

def rows (cache : MatchCache) : List CacheRow :=
  (cache.records.entries.filter (fun entry => !entry.2.keys.isEmpty)).map fun entry =>
    ⟨entry.1, entry.2.hash, entry.2.keys.toList⟩

/-- The records that rows stand for. Of two rows for one name the later counts. -/
def recordsOf (rows : List CacheRow) : SortedMap String MatchRecord :=
  .ofList (rows.map fun row => (row.path, ⟨row.hash, .ofList row.keys⟩))

def fileText (cache : MatchCache) : String :=
  (Json.array (cache.rows.map CacheRow.toJson)).compact

def save (cache : MatchCache) (disk : FileTree.Disk) : Except Fault FileTree.Disk :=
  withContext .file (.writeCache cache.path) (disk.write cache.path (bytesOf cache.fileText))

def readRecords (disk : FileTree.Disk) (path : Path) :
    Except Fault (SortedMap String MatchRecord) := do
  let text ← withContext .file (.readCache path) (disk.readText path)
  let rows ← withContext .json (.parseCache path)
    (Json.decode (Json.readList CacheRow.shape.read) (bytesOf text))
  return recordsOf rows

def load (disk : FileTree.Disk) (root : Path) : MatchCache :=
  let path := Path.join root fileName
  match readRecords disk path with
  | .ok records => ⟨path, records⟩
  | .error _ => new path

def loadEvents (disk : FileTree.Disk) (root : Path) : List Event :=
  let path := Path.join root fileName
  match readRecords disk path with
  | .ok records => [.cacheLoaded path records.size]
  | .error fault => [.cacheUnusable path fault.fullMessage]

end MatchCache
end CatalogAudit
