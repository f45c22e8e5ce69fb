import CatalogAudit.Catalog.KeyPath
import CatalogAudit.Ordered.Map
import CatalogAudit.Source.File
import CatalogAudit.Usage.Event

/-!
# The match cache

For each source file the cache remembers the digest of its content and the keys that have been
found in it. A record is trusted only as long as the digest is that of the file and at least one
key is known. Otherwise it is reset before new keys are added.
-/

namespace CatalogAudit

structure MatchRecord where
  hash : String
  keys : KeySet
deriving DecidableEq

structure MatchCache where
  path : Path
  records : SortedMap String MatchRecord
deriving DecidableEq

namespace MatchCache

def fileName : Path := bytesOf ".i18n-validator.json"

def new (path : Path) : MatchCache :=
  ⟨path, .empty⟩

/-- How many files have a record, with keys or without. -/
def size (cache : MatchCache) : Nat :=
  cache.records.size

def isEmpty (cache : MatchCache) : Bool :=
  cache.records.isEmpty

def get? (cache : MatchCache) (name : String) : Option MatchRecord :=
  cache.records.get? name

/-!
# Trust
-/

/-- The keys that count as found in a file without looking at its content. -/
def trusted? (cache : MatchCache) (name hash : String) : Option KeySet :=
  match cache.get? name with
  | some record => if record.hash = hash ∧ !record.keys.isEmpty then some record.keys else none
  | none => none

/-- The record of a file, reset if it cannot be trusted for this digest. -/
def usableRecord (cache : MatchCache) (name hash : String) : MatchRecord :=
  match cache.get? name with
  | some record =>
      if record.hash ≠ hash ∨ record.keys.isEmpty then ⟨hash, .empty⟩ else record
  | none => ⟨hash, .empty⟩

def refresh (cache : MatchCache) (name hash : String) : MatchCache :=
  { cache with records := cache.records.set name (cache.usableRecord name hash) }

def remember (cache : MatchCache) (name hash : String) (keys : List String) : MatchCache :=
  let record := cache.usableRecord name hash
  let record := { record with keys := record.keys.insertAll keys }
  { cache with records := cache.records.set name record }

/-- What there is to tell if a record is reset: keys were known, but for another content. -/
def refreshEvents (cache : MatchCache) (name hash : String) : List Event :=
  match cache.get? name with
  | some record =>
      if record.hash ≠ hash ∧ !record.keys.isEmpty then [.contentChanged name] else []
  | none => []

/-!
# Files that are gone
-/

def keepOnly (cache : MatchCache) (files : List SourceFile) : MatchCache :=
  let names := files.map (·.name)
  { cache with records := cache.records.filter (fun name _ => names.contains name) }

def keepEvents (cache : MatchCache) (files : List SourceFile) : List Event :=
  [.cachePruned (cache.size - (cache.keepOnly files).size)]

end MatchCache
end CatalogAudit
