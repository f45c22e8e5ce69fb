import CatalogAudit.Proofs.FileTree.WriteRead
import CatalogAudit.Proofs.Json.Readers
import CatalogAudit.Proofs.Usage.Records
import CatalogAudit.Usage.CacheFile

/-!
# Saving and loading the cache

The rows that are written are read back as they are, and they stand for the records with keys. What
is loaded from the file that has just been saved is therefore the cache without its empty records.
-/

namespace CatalogAudit

/-!
# Rows
-/

namespace CacheRow

open Json (Reads printed)

theorem reads_texts (texts : List String) :
    Reads (Json.readList Json.readText) (printed (.array (texts.map .string))) texts := by
  apply Json.reads_readList
  · intro text _
    exact Json.reads_readText text
  · intro text _
    exact Json.beginsValue_string text

theorem takes_path (path : String) :
    Json.Takes shape shape.blank "path" (.string path) ⟨some path, none, none⟩ :=
  ⟨_, rfl, rfl,
    Json.reads_give (Json.reads_readText path) fun path => Draft.mk (some path) none none⟩

theorem takes_hash (path hash : String) :
    Json.Takes shape ⟨some path, none, none⟩ "hash" (.string hash) ⟨some path, some hash, none⟩ :=
  ⟨_, rfl, rfl,
    Json.reads_give (Json.reads_readText hash) fun hash => Draft.mk (some path) (some hash) none⟩

theorem takes_keys (path hash : String) (keys : List String) :
    Json.Takes shape ⟨some path, some hash, none⟩ "keys" (.array (keys.map .string))
      ⟨some path, some hash, some keys⟩ :=
  ⟨_, rfl, rfl,
    Json.reads_give (reads_texts keys) fun keys => Draft.mk (some path) (some hash) (some keys)⟩

theorem reads_toJson (row : CacheRow) : Reads shape.read (printed row.toJson) row := by
  obtain ⟨path, hash, keys⟩ := row
  apply Json.reads_read
  · intro fuel rest place
    rcases Json.readMembersInto_cons (takes_path path)
      [("hash", .string hash), ("keys", .array (keys.map .string))] (fuel + 3) true
      (0x7D :: rest) place with ⟨first, hFirst⟩
    rcases Json.readMembersInto_cons (takes_hash path hash)
      [("keys", .array (keys.map .string))] (fuel + 2) false (0x7D :: rest) first with
      ⟨second, hSecond⟩
    rcases Json.readMembersInto_cons (takes_keys path hash keys) [] (fuel + 1) false
      (0x7D :: rest) second with ⟨third, hThird⟩
    refine ⟨third.after 0x7D, ?_⟩
    exact hFirst.trans (hSecond.trans (hThird.trans
      (Json.readMembersInto_end fuel false _ rest third)))
  · rfl

end CacheRow

/-!
# Records
-/

namespace MatchCache

theorem bytesOf_fileText (cache : MatchCache) :
    bytesOf cache.fileText = Json.printed (.array (cache.rows.map CacheRow.toJson)) := by
  unfold bytesOf fileText Json.compact
  rw [String.toList_ofList]
  rfl

theorem decode_fileText (cache : MatchCache) :
    Json.decode (Json.readList CacheRow.shape.read) (bytesOf cache.fileText) = .ok cache.rows := by
  rw [bytesOf_fileText]
  apply Json.decode_of_reads
  apply Json.reads_readList
  · intro row _
    exact CacheRow.reads_toJson row
  · intro row _
    exact Json.beginsValue_object _

/-- The records that are written: those with keys. -/
def written (cache : MatchCache) : SortedMap String MatchRecord :=
  cache.records.filter (fun _ record => !record.keys.isEmpty)

theorem recordsOf_rows (cache : MatchCache) : recordsOf cache.rows = cache.written := by
  have hEntries : (cache.rows.map fun row =>
      (row.path, (⟨row.hash, .ofList row.keys⟩ : MatchRecord))) = cache.written.entries := by
    unfold rows
    rw [List.map_map]
    apply List.map_id''
    intro entry
    show (entry.1, (⟨entry.2.hash, .ofList entry.2.keys.toList⟩ : MatchRecord)) = entry
    rw [SortedSet.ofList_toList]
  unfold recordsOf
  rw [hEntries, SortedMap.ofList_entries]

/-!
# The saved file
-/

section Saved

variable {cache : MatchCache} {disk : FileTree.Disk}

theorem exists_save_of_absent {directory : FileTree.Location} {name : FileTree.Name}
    (hSlash : FileTree.Disk.endsInSlash cache.path = false)
    (hDirectory : disk.top.IsDirectoryAt directory)
    (h : disk.locate true cache.path = .ok (.absent directory name)) :
    ∃ written, cache.save disk = .ok written := by
  unfold save
  rw [FileTree.Disk.write_of_absent hSlash hDirectory h]
  exact ⟨_, rfl⟩

theorem readRecords_of_readBytes {path : Path}
    (h : disk.readBytes path = .ok (bytesOf cache.fileText)) :
    readRecords disk path = .ok cache.written := by
  unfold readRecords
  rw [FileTree.Disk.readText_of_readBytes h]
  simp only [withContext, bind, Except.bind, decode_fileText]
  show Except.ok (recordsOf cache.rows) = _
  rw [recordsOf_rows]

theorem load_of_readRecords {root : Path} {records : SortedMap String MatchRecord}
    (h : readRecords disk (Path.join root fileName) = .ok records) :
    load disk root = ⟨Path.join root fileName, records⟩ := by
  unfold load
  simp only [h]

theorem load_of_error {root : Path} {fault : Fault}
    (h : readRecords disk (Path.join root fileName) = .error fault) :
    load disk root = new (Path.join root fileName) := by
  unfold load
  simp only [h]

theorem load_congr {disk disk' : FileTree.Disk} {root : Path}
    (h : (disk'.readText (Path.join root fileName)).toOption =
      (disk.readText (Path.join root fileName)).toOption) : load disk' root = load disk root := by
  have hRecords : (readRecords disk' (Path.join root fileName)).toOption =
      (readRecords disk (Path.join root fileName)).toOption := by
    apply Option.ext
    intro records
    rw [toOption_eq_some, toOption_eq_some]
    exact bind_withContext_congr h
  cases hBefore : readRecords disk (Path.join root fileName) with
  | ok records =>
      rw [hBefore] at hRecords
      rw [load_of_readRecords hBefore, load_of_readRecords (toOption_eq_some.mp hRecords)]
  | error fault =>
      rw [hBefore] at hRecords
      cases hAfter : readRecords disk' (Path.join root fileName) with
      | ok records =>
          rw [hAfter] at hRecords
          cases hRecords
      | error fault' => rw [load_of_error hBefore, load_of_error hAfter]

theorem load_save {disk' : FileTree.Disk} (hSave : cache.save disk = .ok disk') {root : Path}
    (hPath : disk'.resolve (Path.join root fileName) = disk'.resolve cache.path) :
    load disk' root = ⟨Path.join root fileName, cache.written⟩ := by
  have hBytes := FileTree.Disk.readBytes_write (withContext_eq_ok.mp hSave)
  unfold FileTree.Disk.readBytes at hBytes
  rw [← hPath] at hBytes
  exact load_of_readRecords (readRecords_of_readBytes hBytes)

theorem holds_of_holds_load_save {written : FileTree.Disk} (hSave : cache.save disk = .ok written)
    {root : Path} (hPath : written.resolve (Path.join root fileName) = written.resolve cache.path)
    {name hash key : String} (h : (load written root).Holds name hash key) :
    cache.Holds name hash key := by
  rw [load_save hSave hPath] at h
  rcases h with ⟨record, hRecord, hRest⟩
  unfold get? at hRecord
  rw [MatchCache.written, SortedMap.get?_filter, Option.filter_eq_some_iff] at hRecord
  exact ⟨record, hRecord.1, hRest⟩

end Saved

end MatchCache
end CatalogAudit
