import CatalogAudit.Locale.Messages
import CatalogAudit.Proofs.Catalog.NodePaths
import CatalogAudit.Proofs.Ordered.Lookup

/-!
# The messages of a locale

A locale has one message for each key, so a catalog with two string leaves of the same key is
refused. The check comes after repeated members of an object have been merged, where the last one
counts, so a leaf that is lost there is not missed. In a document that names each member once no
leaf is lost.
-/

namespace CatalogAudit

open Catalog (Entry)
open FileTree (Disk)

namespace Locale

/-!
# Collected entries
-/

/-- All entries are collected, or else a key is named that more than one of them has. -/
structure Collects (path : Path) (entries : List Entry) (result : Except Fault Messages) :
    Prop where
  succeeds_iff : (∃ messages, result = .ok messages) ↔ (entries.map (·.key)).Nodup
  get?_iff : ∀ messages, result = .ok messages →
    ∀ key value, messages.get? key = some value ↔ ⟨key, value⟩ ∈ entries
  fault : ∀ fault, result = .error fault →
    ∃ key, fault = .of (.duplicateKey key path) ∧ 1 < (entries.map (·.key)).count key

section Adding

variable {path : Path} {entry : Entry} {entries : List Entry} {messages : Messages}

theorem addEntries_of_fresh (h : messages.get? entry.key = none) :
    addEntries path (entry :: entries) messages =
      addEntries path entries (messages.set entry.key entry.value) := by
  rw [addEntries, SortedMap.contains, h]
  rfl

theorem addEntries_of_taken {value : String} (h : messages.get? entry.key = some value) :
    addEntries path (entry :: entries) messages = .error (.of (.duplicateKey entry.key path)) := by
  rw [addEntries, SortedMap.contains, h]
  rfl

theorem exists_addEntries_iff :
    (∃ result, addEntries path entries messages = .ok result) ↔
      (entries.map (·.key)).Nodup ∧ ∀ entry ∈ entries, messages.get? entry.key = none := by
  induction entries generalizing messages with
  | nil => simp [addEntries]
  | cons entry entries ih =>
      cases hKey : messages.get? entry.key with
      | some value =>
          rw [addEntries_of_taken hKey]
          simp [hKey]
      | none =>
          rw [addEntries_of_fresh hKey, ih, List.map_cons, List.nodup_cons, List.forall_mem_cons]
          simp only [SortedMap.get?_set, List.mem_map, not_exists, not_and]
          constructor
          · intro h
            refine ⟨⟨?_, h.1⟩, hKey, ?_⟩
            · intro other hOther hSame
              have hTaken := h.2 other hOther
              rw [if_pos hSame] at hTaken
              cases hTaken
            · intro other hOther
              have hFresh := h.2 other hOther
              split at hFresh
              · cases hFresh
              · exact hFresh
          · intro h
            refine ⟨h.1.2, ?_⟩
            intro other hOther
            rw [if_neg (h.1.1 other hOther)]
            exact h.2.2 other hOther

theorem get?_of_addEntries {result : Messages} (h : addEntries path entries messages = .ok result)
    {key value : String} :
    result.get? key = some value ↔ ⟨key, value⟩ ∈ entries ∨ messages.get? key = some value := by
  induction entries generalizing messages with
  | nil =>
      cases h
      simp
  | cons entry entries ih =>
      have hFresh := (exists_addEntries_iff.mp ⟨result, h⟩).2 entry (List.mem_cons_self ..)
      rw [addEntries_of_fresh hFresh] at h
      obtain ⟨name, message⟩ := entry
      rw [ih h, SortedMap.get?_set, List.mem_cons, Entry.mk.injEq]
      by_cases hKey : key = name
      · subst hKey
        simp [hFresh, eq_comm, or_comm]
      · simp [hKey]

theorem exists_key_of_addEntries {fault : Fault}
    (h : addEntries path entries messages = .error fault) :
    ∃ key ∈ entries.map (·.key), fault = .of (.duplicateKey key path) ∧
      (1 < (entries.map (·.key)).count key ∨ messages.get? key ≠ none) := by
  induction entries generalizing messages with
  | nil => cases h
  | cons entry entries ih =>
      cases hKey : messages.get? entry.key with
      | some value =>
          rw [addEntries_of_taken hKey] at h
          cases h
          exact ⟨entry.key, List.mem_cons_self .., rfl, Or.inr (by simp [hKey])⟩
      | none =>
          rw [addEntries_of_fresh hKey] at h
          rcases ih h with ⟨key, hMem, hFault, hTwice⟩
          refine ⟨key, List.mem_cons_of_mem _ hMem, hFault, ?_⟩
          rw [List.map_cons, List.count_cons]
          rcases hTwice with hMore | hTaken
          · exact Or.inl (Nat.lt_add_right _ hMore)
          · rw [SortedMap.get?_set] at hTaken
            by_cases hSame : key = entry.key
            · have hOnce := List.count_pos_iff.mpr hMem
              rw [if_pos (by simp [hSame])]
              exact Or.inl (Nat.succ_lt_succ hOnce)
            · rw [if_neg hSame] at hTaken
              exact Or.inr hTaken

end Adding

theorem collects_addEntries (path : Path) (entries : List Entry) :
    Collects path entries (addEntries path entries .empty) := by
  constructor
  · rw [exists_addEntries_iff]
    simp
  · intro messages h key value
    rw [get?_of_addEntries h]
    simp
  · intro fault h
    rcases exists_key_of_addEntries h with ⟨key, _, hFault, hTwice⟩
    exact ⟨key, hFault, hTwice.resolve_right (by simp)⟩

end Locale

/-!
# Documents without repeated members
-/

namespace Json

theorem setMember_of_not_mem {name : String} {members : List (String × Json)}
    (h : name ∉ members.map (·.1)) (value : Json) :
    setMember name value members = members ++ [(name, value)] := by
  induction members with
  | nil => rfl
  | cons head rest ih =>
      rw [List.map_cons, List.mem_cons, not_or] at h
      rw [setMember, if_neg (Ne.symm h.1), ih h.2, List.cons_append]

theorem mergeMembers_of_nodup {members : List (String × Json)}
    (h : (members.map (·.1)).Nodup) : mergeMembers members = members := by
  unfold mergeMembers
  induction members using List.reverseRecOn with
  | nil => rfl
  | append_singleton front member ih =>
      rw [List.map_append, List.nodup_append] at h
      rw [List.foldl_append, ih h.1]
      apply setMember_of_not_mem
      intro hMem
      exact h.2.2 _ hMem _ (List.mem_singleton_self _) rfl

end Json

namespace Catalog

theorem HasDistinctNames.merged_eq {path : List String} {written : Json}
    (h : HasDistinctNames (nodesAt path written)) : written.merged = written := by
  induction written using induction_children generalizing path with
  | step written ih =>
      have hChildren : ∀ child ∈ children written, child.2.merged = child.2 :=
        fun child hChild => ih child hChild (h.below hChild)
      cases written with
      | object members =>
          have hNames : (members.map (·.1)).Nodup :=
            h _ (mem_nodesAt_iff.mpr (Or.inl rfl))
          have hSame : (members.map fun member => (member.1, member.2.merged)) = members := by
            have hEach : ∀ member ∈ members, (member.1, member.2.merged) = member :=
              fun member hMember => by rw [hChildren member hMember]
            rw [List.map_congr_left hEach, List.map_id']
          rw [Json.merged, Json.mergedMembers_eq, hSame, Json.mergeMembers_of_nodup hNames]
      | array items =>
          have hSame : items.map Json.merged = items := by
            have hEach : ∀ item ∈ items, item.merged = item := by
              intro item hItem
              rcases exists_mem_numbered 0 hItem with ⟨name, hNumbered⟩
              exact hChildren (name, item) hNumbered
            rw [List.map_congr_left hEach, List.map_id']
          rw [Json.merged, Json.mergedItems_eq, hSame]
      | _ => rfl

/-- The string leaves of a document that have a key, each under all segments of its path. -/
def keyedLeaves (root : Json) : List Entry :=
  (lawfulListing root).entries

theorem entries_flatten_eq_keyedLeaves {root : Json}
    (h : ∀ path value, (path, .string value) ∈ nodesAt [] root → ¬BeginsUnnamed path) :
    (flatten root).entries = keyedLeaves root := by
  rw [flatten_eq_listing]
  apply List.filterMap_congr
  intro located hLocated
  obtain ⟨path, node⟩ := located
  cases node with
  | string value =>
      have hText := dotJoinedFromName_eq_of_not_beginsUnnamed (h path value hLocated)
      simp only [entryOf?, hText]
  | _ => rfl

end Catalog

/-!
# Loading
-/

namespace Locale

theorem load_of_parseWritten {disk : Disk} {path : Path} {text : String} {written : Json}
    (hText : disk.readText path = .ok text)
    (hWritten : Json.parseWritten Json.depthLimit (bytesOf text) = .ok written) :
    load disk path = addEntries path (Catalog.flatten written.merged).entries .empty := by
  have hParse : Json.parse (bytesOf text) = .ok written.merged := by
    unfold Json.parse
    rw [hWritten]
    rfl
  unfold load Catalog.load
  simp only [hText, withContext, bind, Except.bind, hParse]
  rfl

/--
A readable document is loaded with the string leaves that it has after repeated members have been
merged, and it is refused if two of them have the same key. As long as no object of the document as
written names a member twice, and no leaf lies below an unnamed member of the root, these are all
leaves of the document, each under all segments of its path.
-/
theorem collects_load {disk : Disk} {path : Path} {text : String} {written : Json}
    (hText : disk.readText path = .ok text)
    (hWritten : Json.parseWritten Json.depthLimit (bytesOf text) = .ok written) :
    Collects path (Catalog.flatten written.merged).entries (load disk path) ∧
      (Catalog.HasDistinctNames (Catalog.nodesAt [] written) →
        (∀ path value, (path, .string value) ∈ Catalog.nodesAt [] written →
          ¬Catalog.BeginsUnnamed path) →
        Collects path (Catalog.keyedLeaves written) (load disk path)) := by
  have hCollects := collects_addEntries path (Catalog.flatten written.merged).entries
  rw [load_of_parseWritten hText hWritten]
  refine ⟨hCollects, ?_⟩
  intro hDistinct hNamed
  rw [hDistinct.merged_eq, Catalog.entries_flatten_eq_keyedLeaves hNamed] at hCollects
  rw [hDistinct.merged_eq, Catalog.entries_flatten_eq_keyedLeaves hNamed]
  exact hCollects

def spelledText : String :=
  "\x7b\"a.b\":\"x\",\"list\":[\"y\",\x7b\"0\":\"z\"\x7d],\"a\":\x7b\"b\":\"w\"\x7d\x7d"

def spelledRoot : Json :=
  .object [("a.b", .string "x"), ("list", .array [.string "y", .object [("0", .string "z")]]),
    ("a", .object [("b", .string "w")])]

def spelledDisk : Disk where
  top := .directory [(bytesOf "en.json", .file (bytesOf spelledText))]
  cwd := []

theorem collects_load_spelledDisk :
    spelledDisk.readText (bytesOf "en.json") = .ok spelledText ∧
      Json.parseWritten Json.depthLimit (bytesOf spelledText) = .ok spelledRoot ∧
      Catalog.HasDistinctNames (Catalog.nodesAt [] spelledRoot) ∧
      (∀ path value, (path, .string value) ∈ Catalog.nodesAt [] spelledRoot →
        ¬Catalog.BeginsUnnamed path) ∧
      (Catalog.keyedLeaves spelledRoot).map (·.key) = ["a.b", "list.0", "list.1.0", "a.b"] ∧
      Collects (bytesOf "en.json") (Catalog.keyedLeaves spelledRoot)
        (load spelledDisk (bytesOf "en.json")) := by
  have hText : spelledDisk.readText (bytesOf "en.json") = .ok spelledText := by
    rfl
  have hWritten : Json.parseWritten Json.depthLimit (bytesOf spelledText) = .ok spelledRoot := by
    rfl
  have hDistinct : Catalog.HasDistinctNames (Catalog.nodesAt [] spelledRoot) := by
    unfold Catalog.HasDistinctNames
    decide
  have hNamed : ∀ path value, (path, .string value) ∈ Catalog.nodesAt [] spelledRoot →
      ¬Catalog.BeginsUnnamed path := by
    intro path value hLeaf hUnnamed
    rcases hUnnamed with ⟨name, rest, rfl⟩
    simp [spelledRoot, Catalog.nodesAt, Catalog.itemNodesAt, Catalog.memberNodesAt] at hLeaf
  exact ⟨hText, hWritten, hDistinct, hNamed, by decide,
    (collects_load hText hWritten).2 hDistinct hNamed⟩

/-- A repeated member is merged before the leaves are compared, and the last message counts. -/
theorem load_repeatedMember :
    let text := "\x7b\"a\":\"x\",\"a\":\"y\"\x7d"
    let root := Json.object [("a", .string "x"), ("a", .string "y")]
    let disk : Disk := ⟨.directory [(bytesOf "en.json", .file (bytesOf text))], []⟩
    (disk.readText (bytesOf "en.json") = .ok text ∧
      Json.parseWritten Json.depthLimit (bytesOf text) = .ok root ∧
      (Catalog.keyedLeaves root).map (·.key) = ["a", "a"]) ∧
    load disk (bytesOf "en.json") = .ok (.ofList [("a", "y")]) := by
  refine ⟨⟨rfl, rfl, by decide⟩, ?_⟩
  decide +kernel

end Locale
end CatalogAudit
