import CatalogAudit.Proofs.FileTree.Writes
import CatalogAudit.Proofs.Ordered.Lookup
import CatalogAudit.Proofs.Text.ByteOrder
import CatalogAudit.Proofs.Usage.DepthMap
import CatalogAudit.Proofs.Usage.SaveLoad

/-!
# The cache file is canonical

The records with keys determine the cache file, and the file gives back these records. How they have
come into the cache leaves no trace: paths and keys are listed in the order of their bytes, and what
has been loaded is saved as the same bytes.
-/

namespace CatalogAudit
namespace MatchCache

open FileTree (Disk IsFileName)

/-!
# The records that are written
-/

theorem get?_written {cache : MatchCache} {name : String} {record : MatchRecord} :
    cache.written.get? name = some record ↔
      cache.get? name = some record ∧ record.keys.isEmpty = false := by
  unfold written
  rw [SortedMap.get?_filter, Option.filter_eq_some_iff]
  simp [get?]

theorem written_eq_iff {cache other : MatchCache} :
    other.written = cache.written ↔
      ∀ name record, record.keys.isEmpty = false →
        (other.get? name = some record ↔ cache.get? name = some record) := by
  constructor
  · intro h name record hSome
    have hBoth : other.written.get? name = some record ↔ cache.written.get? name = some record := by
      rw [h]
    rw [get?_written, get?_written] at hBoth
    simpa [hSome] using hBoth
  · intro h
    apply SortedMap.ext_get?
    intro name
    apply Option.ext
    intro record
    rw [get?_written, get?_written]
    constructor
    · intro hOther
      exact ⟨(h name record hOther.2).mp hOther.1, hOther.2⟩
    · intro hCache
      exact ⟨(h name record hCache.2).mpr hCache.1, hCache.2⟩

theorem get?_of_holds_iff {cache other : MatchCache} {name : String}
    (h : ∀ hash key, cache.Holds name hash key ↔ other.Holds name hash key) {record : MatchRecord}
    (hSome : record.keys.isEmpty = false) (hRecord : cache.get? name = some record) :
    other.get? name = some record := by
  rcases Usage.isEmpty_eq_false_iff.mp hSome with ⟨key, hKey⟩
  rcases (h record.hash key).mp ⟨record, hRecord, rfl, hKey⟩ with ⟨found, hFound, hHash, _⟩
  have hKeys : found.keys = record.keys := by
    apply SortedSet.ext_mem
    intro key
    constructor
    · intro hKey
      rcases (h found.hash key).mpr ⟨found, hFound, rfl, hKey⟩ with ⟨same, hSame, _, hMem⟩
      rw [hRecord] at hSame
      cases hSame
      exact hMem
    · intro hKey
      rcases (h record.hash key).mp ⟨record, hRecord, rfl, hKey⟩ with ⟨same, hSame, _, hMem⟩
      rw [hFound] at hSame
      cases hSame
      exact hMem
  cases record
  cases found
  cases hHash
  cases hKeys
  exact hFound

theorem written_eq_of_holds_iff {cache other : MatchCache}
    (h : ∀ name hash key, other.Holds name hash key ↔ cache.Holds name hash key) :
    other.written = cache.written := by
  apply written_eq_iff.mpr
  intro name record hSome
  constructor
  · exact get?_of_holds_iff (h name) hSome
  · exact get?_of_holds_iff (fun hash key => (h name hash key).symm) hSome

/-!
# The text
-/

theorem rows_eq_map_written (cache : MatchCache) :
    cache.rows = cache.written.entries.map fun entry =>
      ⟨entry.1, entry.2.hash, entry.2.keys.toList⟩ :=
  rfl

/-- The text says what the records with keys are and nothing else. -/
theorem fileText_eq_iff {cache other : MatchCache} :
    other.fileText = cache.fileText ↔ other.written = cache.written := by
  constructor
  · intro h
    have hRows : other.rows = cache.rows := by
      have hDecoded := decode_fileText other
      rw [h, decode_fileText cache, Except.ok.injEq] at hDecoded
      exact hDecoded.symm
    rw [← recordsOf_rows other, hRows, recordsOf_rows cache]
  · intro h
    unfold fileText
    rw [rows_eq_map_written, h, ← rows_eq_map_written]

theorem written_mk_written (cache : MatchCache) (path : Path) :
    (⟨path, cache.written⟩ : MatchCache).written = cache.written := by
  apply written_eq_iff.mpr
  intro name record hSome
  show cache.written.get? name = some record ↔ cache.get? name = some record
  rw [get?_written]
  simp [hSome]

theorem holds_mk_written {cache : MatchCache} {path : Path} {name hash key : String} :
    (⟨path, cache.written⟩ : MatchCache).Holds name hash key ↔ cache.Holds name hash key := by
  constructor
  · intro h
    rcases h with ⟨record, hRecord, hRest⟩
    exact ⟨record, (get?_written.mp hRecord).1, hRest⟩
  · intro h
    rcases h with ⟨record, hRecord, hHash, hKey⟩
    have hSome := Usage.isEmpty_eq_false_iff.mpr ⟨key, hKey⟩
    exact ⟨record, get?_written.mpr ⟨hRecord, hSome⟩, hHash, hKey⟩

theorem pairwise_path_rows (cache : MatchCache) :
    cache.rows.Pairwise (fun row row' => bytesOf row.path < bytesOf row'.path) := by
  rw [rows_eq_map_written, List.pairwise_map]
  exact cache.written.ascending.imp bytesOf_lt

theorem pairwise_keys_of_mem_rows {cache : MatchCache} {row : CacheRow} (h : row ∈ cache.rows) :
    row.keys.Pairwise (fun key key' => bytesOf key < bytesOf key') := by
  rw [rows_eq_map_written] at h
  rcases List.mem_map.mp h with ⟨entry, _, rfl⟩
  exact entry.2.keys.ascending.imp bytesOf_lt

/-!
# Any order of rows and keys

A cache can be made from rows in any order, each with its keys in any order. Its text depends only
on which keys the rows list.
-/

def Lists (rows : List CacheRow) (name hash key : String) : Prop :=
  ∃ row ∈ rows, row.path = name ∧ row.hash = hash ∧ key ∈ row.keys

theorem holds_recordsOf {rows : List CacheRow} (h : (rows.map (·.path)).Nodup) {path : Path}
    {name hash key : String} :
    (⟨path, recordsOf rows⟩ : MatchCache).Holds name hash key ↔ Lists rows name hash key := by
  have hNames : ((rows.map fun row =>
      (row.path, (⟨row.hash, .ofList row.keys⟩ : MatchRecord))).map (·.1)).Nodup := by
    rw [List.map_map]
    exact h
  have hRecord : ∀ record, (recordsOf rows).get? name = some record ↔
      ∃ row ∈ rows, row.path = name ∧ (⟨row.hash, .ofList row.keys⟩ : MatchRecord) = record := by
    intro record
    unfold recordsOf
    rw [SortedMap.get?_ofList hNames, List.mem_map]
    simp
  constructor
  · intro hHolds
    rcases hHolds with ⟨record, hFound, hHash, hKey⟩
    rcases (hRecord record).mp hFound with ⟨row, hRow, hName, rfl⟩
    exact ⟨row, hRow, hName, hHash, SortedSet.mem_ofList.mp hKey⟩
  · intro hLists
    rcases hLists with ⟨row, hRow, hName, hHash, hKey⟩
    exact ⟨⟨row.hash, .ofList row.keys⟩, (hRecord _).mpr ⟨row, hRow, hName, rfl⟩, hHash,
      SortedSet.mem_ofList.mpr hKey⟩

/-!
# Saving and loading
-/

theorem path_load (disk : Disk) (root : Path) :
    (load disk root).path = Path.join root fileName := by
  cases h : readRecords disk (Path.join root fileName) with
  | ok records => rw [load_of_readRecords h]
  | error fault =>
      rw [load_of_error h]
      rfl

theorem isFileName_fileName : IsFileName fileName := by
  decide

/-- What a cache leaves on the disk when it is saved in the directory that it belongs to. -/
structure IsCanonicalIn (root : Path) (cache : MatchCache) (saved : Disk) : Prop where
  get?_load : ∀ name record,
    (load saved root).get? name = some record ↔
      cache.get? name = some record ∧ record.keys.isEmpty = false
  readBytes_eq : saved.readBytes cache.path = .ok (bytesOf cache.fileText)
  decode_eq : Json.decode (Json.readList CacheRow.shape.read) (bytesOf cache.fileText) =
    .ok cache.rows
  paths_ascending : cache.rows.Pairwise (fun row row' => bytesOf row.path < bytesOf row'.path)
  keys_ascending : ∀ row ∈ cache.rows,
    row.keys.Pairwise (fun key key' => bytesOf key < bytesOf key')
  fileText_eq_iff : ∀ other : MatchCache,
    other.fileText = cache.fileText ↔
      ∀ name record, record.keys.isEmpty = false →
        (other.get? name = some record ↔ cache.get? name = some record)
  fileText_recordsOf : ∀ rows : List CacheRow, (rows.map (·.path)).Nodup →
    (∀ name hash key, Lists rows name hash key ↔ cache.Holds name hash key) →
      (⟨cache.path, recordsOf rows⟩ : MatchCache).fileText = cache.fileText
  save_load : (load saved root).save saved = .ok saved

/--
A cache that is saved in a directory is loaded from there with exactly its records with keys. The
file depends on these records only, lists them in the order of their bytes, and stays the same when
what has been loaded is saved again.
-/
theorem isCanonicalIn_save {cache : MatchCache} {disk saved : Disk} {root : Path}
    (hPath : cache.path = Path.join root fileName)
    (hSave : cache.save disk = .ok saved) : cache.IsCanonicalIn root saved := by
  have hWrite := withContext_eq_ok.mp hSave
  rw [hPath] at hWrite
  have hBytes := Disk.readBytes_write hWrite
  have hLoad := load_of_readRecords (readRecords_of_readBytes hBytes)
  constructor
  case get?_load =>
    intro name record
    rw [hLoad]
    exact get?_written
  case readBytes_eq =>
    rw [hPath]
    exact hBytes
  case decode_eq => exact decode_fileText cache
  case paths_ascending => exact pairwise_path_rows cache
  case keys_ascending => exact fun row hRow => pairwise_keys_of_mem_rows hRow
  case fileText_eq_iff =>
    intro other
    rw [MatchCache.fileText_eq_iff, written_eq_iff]
  case fileText_recordsOf =>
    intro rows hNames hLists
    rw [MatchCache.fileText_eq_iff]
    apply written_eq_of_holds_iff
    intro name hash key
    rw [holds_recordsOf hNames, hLists]
  case save_load =>
    have hText : (load saved root).fileText = cache.fileText := by
      rw [hLoad, MatchCache.fileText_eq_iff, written_mk_written]
    have hAgain := Disk.write_write_self hWrite
    rw [save, hText, hLoad, withContext_eq_ok]
    exact hAgain

def oddCache : MatchCache where
  path := bytesOf "src/.i18n-validator.json"
  records := .ofList [
    ("ä/\"b\".ts", ⟨"1", .ofList ["menu.\\", "menu.\"open\"", "línea\n", "\x01"]⟩),
    ("gone.ts", ⟨"2", .empty⟩),
    ("a.ts", ⟨"", .ofList ["日本.語", "z", "𝄞"]⟩)]

def sourceDisk : Disk :=
  ⟨.directory [(bytesOf "src", .directory [])], []⟩

theorem isCanonicalIn_save_oddCache :
    ∃ saved, oddCache.save sourceDisk = .ok saved ∧
      oddCache.IsCanonicalIn (bytesOf "src") saved := by
  have hSlash : Disk.endsInSlash oddCache.path = false := by decide +kernel
  have hDirectory : sourceDisk.top.IsDirectoryAt [bytesOf "src"] := ⟨_, rfl⟩
  have hLocate : sourceDisk.locate true oddCache.path =
      .ok (.absent [bytesOf "src"] fileName) := by
    rfl
  rcases exists_save_of_absent hSlash hDirectory hLocate with ⟨saved, hSave⟩
  exact ⟨saved, hSave, isCanonicalIn_save rfl hSave⟩

end MatchCache
end CatalogAudit
