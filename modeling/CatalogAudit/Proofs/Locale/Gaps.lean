import CatalogAudit.Locale.Gaps
import CatalogAudit.Proofs.Locale.Files
import CatalogAudit.Proofs.Text.ByteOrder

/-!
# The gaps of a directory

The keys of the base catalog are looked up in the catalogs of all other locales of the directory.
What is found in one of them does not depend on the others, as long as they can be loaded.
-/

namespace CatalogAudit
namespace Locale

open FileTree (Disk Location)

def Lists (result : TranslationGaps) (key locale : String) : Prop :=
  ∃ missing, result.get? key = some missing ∧ locale ∈ missing

/-!
# Gaps between loaded locales
-/

section Loaded

variable {locales : Locales} {base key locale : String}

theorem isTranslated_eq_false_iff {messages : Messages} {message : String} :
    isTranslated messages key message = false ↔
      messages.get? key = none ∨ messages.get? key = some message := by
  unfold isTranslated
  cases messages.get? key with
  | none => simp
  | some other => simp

theorem mem_missingIn_iff {message : String} :
    locale ∈ missingIn locales base key message ↔
      locale ≠ base ∧ ∃ messages, locales.get? locale = some messages ∧
        (messages.get? key = none ∨ messages.get? key = some message) := by
  unfold missingIn SortedMap.keys
  simp only [SortedSet.mem_ofList, List.mem_map, Prod.exists, exists_and_right, exists_eq_right,
    ← SortedMap.get?_eq_some_iff, SortedMap.get?_filter, Option.filter_eq_some_iff,
    Bool.and_eq_true, Bool.not_eq_true', decide_eq_true_eq, isTranslated_eq_false_iff]
  constructor
  · intro h
    rcases h with ⟨messages, hMessages, hOther, hGap⟩
    exact ⟨hOther, messages, hMessages, hGap⟩
  · intro h
    rcases h with ⟨hOther, messages, hMessages, hGap⟩
    exact ⟨messages, hMessages, hOther, hGap⟩

theorem exists_gaps_iff :
    (∃ result, gaps locales base = .ok result) ↔ ∃ messages, locales.get? base = some messages := by
  unfold gaps
  cases locales.get? base with
  | none => simp
  | some messages => simp

theorem get?_of_gaps {result : TranslationGaps} (h : gaps locales base = .ok result)
    {missing : LocaleSet} :
    result.get? key = some missing ↔
      ∃ messages message, locales.get? base = some messages ∧ messages.get? key = some message ∧
        missing = missingIn locales base key message ∧ missing.isEmpty = false := by
  unfold gaps at h
  cases hBase : locales.get? base with
  | none =>
      rw [hBase] at h
      cases h
  | some messages =>
      rw [hBase] at h
      cases h
      simp only [SortedMap.get?_filter, SortedMap.get?_mapValues, Option.filter_eq_some_iff,
        Option.map_eq_some_iff, Bool.not_eq_true']
      constructor
      · intro hGap
        rcases hGap with ⟨⟨message, hMessage, hMissing⟩, hSome⟩
        exact ⟨messages, message, rfl, hMessage, hMissing.symm, hSome⟩
      · intro hGap
        rcases hGap with ⟨_, message, hMessages, hMessage, hMissing, hSome⟩
        cases hMessages
        exact ⟨⟨message, hMessage, hMissing.symm⟩, hSome⟩

theorem lists_iff_of_gaps {result : TranslationGaps} (h : gaps locales base = .ok result) :
    Lists result key locale ↔
      locale ≠ base ∧ ∃ baseMessages messages message, locales.get? base = some baseMessages ∧
        locales.get? locale = some messages ∧ baseMessages.get? key = some message ∧
        (messages.get? key = none ∨ messages.get? key = some message) := by
  unfold Lists
  simp only [get?_of_gaps h]
  constructor
  · intro hLists
    rcases hLists with ⟨_, ⟨baseMessages, message, hBase, hMessage, rfl, _⟩, hMem⟩
    rcases mem_missingIn_iff.mp hMem with ⟨hOther, messages, hMessages, hGap⟩
    exact ⟨hOther, baseMessages, messages, message, hBase, hMessages, hMessage, hGap⟩
  · intro hGap
    rcases hGap with ⟨hOther, baseMessages, messages, message, hBase, hMessages, hMessage, hGap⟩
    have hMem := mem_missingIn_iff.mpr ⟨hOther, messages, hMessages, hGap⟩
    refine ⟨_, ⟨baseMessages, message, hBase, hMessage, rfl, ?_⟩, hMem⟩
    rw [← Bool.not_eq_true, SortedSet.isEmpty_iff, not_forall_not]
    exact ⟨locale, hMem⟩

end Loaded

/-!
# Gaps between the catalogs of a directory
-/

def findGaps (disk : Disk) (directory : Path) (base : String) : Except Fault TranslationGaps := do
  let locales ← loadAll disk directory
  gaps locales base

/-- The catalog of the locale has a leaf with this key and this message. -/
def HasMessage (disk : Disk) (directory : Path) (locale key message : String) : Prop :=
  ∃ flat, Catalog.load disk (pathOf directory locale) = .ok flat ∧ ⟨key, message⟩ ∈ flat.entries

/-- The base has a message for the key that the locale does not have, or has just the same. -/
structure IsGap (disk : Disk) (directory : Path) (base key locale : String) : Prop where
  other : locale ≠ base
  file : HasFile disk directory locale
  untranslated : ∃ message, HasMessage disk directory base key message ∧
    ((∀ any, ¬HasMessage disk directory locale key any) ∨
      HasMessage disk directory locale key message)

/--
The file of another locale is made or changed, so that it can be loaded. Links are followed, so a
file at this place is the file of every locale whose path leads there, and the base is none of them.
-/
structure ChangesOther (disk : Disk) (directory : Path) (base other : String)
    (place : Location) (disk' : Disk) : Prop where
  changed : disk.ChangedAt place disk'
  leads : disk.place? (pathOf directory other) = some place
  notBase : disk.place? (pathOf directory base) ≠ some place
  file : HasFile disk' directory other
  loads : ∃ messages, load disk' (pathOf directory other) = .ok messages

/--
What the files of a directory tell about the gaps between them. What is listed for a locale is
unaffected by a change of a file that is not its own.
-/
structure Accounts (disk : Disk) (directory : Path) (base : String) : Prop where
  succeeds_iff : (∃ result, findGaps disk directory base = .ok result) ↔
    (∃ locale, HasFile disk directory locale) ∧
      (∀ locale, HasFile disk directory locale →
        ∃ messages, load disk (pathOf directory locale) = .ok messages) ∧
      HasFile disk directory base
  contributes : ∀ locales, loadAll disk directory = .ok locales → ∀ locale messages,
    locales.get? locale = some messages ↔
      HasFile disk directory locale ∧ load disk (pathOf directory locale) = .ok messages
  lists_iff : ∀ result, findGaps disk directory base = .ok result → ∀ key locale,
    Lists result key locale ↔ IsGap disk directory base key locale
  nonempty : ∀ result, findGaps disk directory base = .ok result → ∀ key missing,
    result.get? key = some missing → ∃ locale, locale ∈ missing
  keys_ascending : ∀ result, findGaps disk directory base = .ok result →
    (result.keys.map bytesOf).Pairwise (· < ·)
  locales_ascending : ∀ result, findGaps disk directory base = .ok result → ∀ key missing,
    result.get? key = some missing → (missing.toList.map bytesOf).Pairwise (· < ·)
  unaffected : ∀ result, findGaps disk directory base = .ok result → ∀ other place disk',
    ChangesOther disk directory base other place disk' →
      ∃ result', findGaps disk' directory base = .ok result' ∧
        ∀ key locale, disk.place? (pathOf directory locale) ≠ some place →
          (Lists result' key locale ↔ Lists result key locale)

section Directory

variable {disk : Disk} {directory : Path} {base key locale : String}

theorem findGaps_eq_ok_iff {result : TranslationGaps} :
    findGaps disk directory base = .ok result ↔
      ∃ locales, loadAll disk directory = .ok locales ∧ gaps locales base = .ok result :=
  bind_eq_ok

theorem exists_findGaps_iff (hSound : disk.IsSound) :
    (∃ result, findGaps disk directory base = .ok result) ↔
      (∃ locale, HasFile disk directory locale) ∧
        (∀ locale, HasFile disk directory locale →
          ∃ messages, load disk (pathOf directory locale) = .ok messages) ∧
        HasFile disk directory base := by
  rw [← and_assoc, ← exists_loadAll_iff]
  simp only [findGaps_eq_ok_iff]
  constructor
  · intro h
    rcases h with ⟨result, locales, hLoad, hGaps⟩
    rcases exists_gaps_iff.mp ⟨result, hGaps⟩ with ⟨messages, hBase⟩
    exact ⟨⟨locales, hLoad⟩, ((get?_of_loadAll hSound hLoad).mp hBase).1⟩
  · intro h
    rcases h with ⟨⟨locales, hLoad⟩, hBase⟩
    rcases (exists_loadAll_iff.mp ⟨locales, hLoad⟩).2 base hBase with ⟨messages, hMessages⟩
    have hFound := (get?_of_loadAll hSound hLoad).mpr ⟨hBase, hMessages⟩
    rcases exists_gaps_iff.mpr ⟨messages, hFound⟩ with ⟨result, hGaps⟩
    exact ⟨result, locales, hLoad, hGaps⟩

theorem get?_of_load {messages : Messages}
    (h : load disk (pathOf directory locale) = .ok messages) {message : String} :
    messages.get? key = some message ↔ HasMessage disk directory locale key message := by
  rcases bind_eq_ok.mp h with ⟨flat, hFlat, hMessages⟩
  rw [get?_of_addEntries hMessages, SortedMap.get?_empty]
  unfold HasMessage
  rw [hFlat]
  simp

theorem lists_iff_isGap (hSound : disk.IsSound) {result : TranslationGaps}
    (h : findGaps disk directory base = .ok result) :
    Lists result key locale ↔ IsGap disk directory base key locale := by
  rcases findGaps_eq_ok_iff.mp h with ⟨locales, hLoad, hGaps⟩
  have hFound : ∀ locale messages, locales.get? locale = some messages ↔ _ :=
    fun _ _ => get?_of_loadAll hSound hLoad
  rw [lists_iff_of_gaps hGaps]
  constructor
  · intro hLists
    rcases hLists with ⟨hOther, baseMessages, messages, message, hBase, hLocale, hMessage, hGap⟩
    have hIn : ∀ any, messages.get? key = some any ↔ HasMessage disk directory locale key any :=
      fun _ => get?_of_load ((hFound _ _).mp hLocale).2
    refine ⟨hOther, ((hFound _ _).mp hLocale).1, message,
      (get?_of_load ((hFound _ _).mp hBase).2).mp hMessage, ?_⟩
    rw [← hIn]
    rcases hGap with hNone | hSame
    · refine Or.inl fun any hAny => ?_
      rw [← hIn, hNone] at hAny
      cases hAny
    · exact Or.inr hSame
  · intro hGap
    rcases exists_gaps_iff.mp ⟨result, hGaps⟩ with ⟨baseMessages, hBase⟩
    rcases (exists_loadAll_iff.mp ⟨locales, hLoad⟩).2 locale hGap.file with ⟨messages, hMessages⟩
    rcases hGap.untranslated with ⟨message, hMessage, hUntranslated⟩
    have hIn : ∀ any, messages.get? key = some any ↔ HasMessage disk directory locale key any :=
      fun _ => get?_of_load hMessages
    refine ⟨hGap.other, baseMessages, messages, message, hBase,
      (hFound _ _).mpr ⟨hGap.file, hMessages⟩,
      (get?_of_load ((hFound _ _).mp hBase).2).mpr hMessage, ?_⟩
    simp only [Option.eq_none_iff_forall_not_mem, Option.mem_def, hIn]
    exact hUntranslated

/-!
# Changes of another locale
-/

section Changes

variable {disk' : Disk} {other : String} {place : Location}
  (h : ChangesOther disk directory base other place disk')
include h

theorem ChangesOther.load_eq_ok_iff (hOther : disk.place? (pathOf directory locale) ≠ some place)
    {messages : Messages} :
    load disk' (pathOf directory locale) = .ok messages ↔
      load disk (pathOf directory locale) = .ok messages :=
  load_eq_ok_congr (h.changed.readText_eq hOther)

theorem ChangesOther.exists_loadAll {locales : Locales}
    (hLoad : loadAll disk directory = .ok locales) :
    ∃ locales', loadAll disk' directory = .ok locales' := by
  have hEach := (exists_loadAll_iff.mp ⟨locales, hLoad⟩).2
  refine exists_loadAll_iff.mpr ⟨⟨other, h.file⟩, fun locale hFile => ?_⟩
  by_cases hPlace : disk.place? (pathOf directory locale) = some place
  -- the very file that has changed, perhaps through a link
  · rcases h.loads with ⟨messages, hMessages⟩
    have hSame : disk'.place? (pathOf directory locale) =
        disk'.place? (pathOf directory other) := by
      rw [h.changed.place?_eq, h.changed.place?_eq, hPlace, h.leads]
    have hText := Disk.toOption_readText_congr hSame
    exact ⟨messages, (load_eq_ok_congr hText).mpr hMessages⟩
  · rcases hEach locale ((hasFile_iff_of_changedAt h.changed hPlace).mp hFile) with
      ⟨messages, hMessages⟩
    exact ⟨messages, (h.load_eq_ok_iff hPlace).mpr hMessages⟩

theorem ChangesOther.get?_eq (hSound : disk.IsSound) {locales locales' : Locales}
    (hLoad : loadAll disk directory = .ok locales)
    (hLoad' : loadAll disk' directory = .ok locales')
    (hOther : disk.place? (pathOf directory locale) ≠ some place) :
    locales'.get? locale = locales.get? locale := by
  apply Option.ext
  intro messages
  rw [get?_of_loadAll h.changed.sound' hLoad', get?_of_loadAll hSound hLoad,
    hasFile_iff_of_changedAt h.changed hOther, h.load_eq_ok_iff hOther]

theorem ChangesOther.exists_findGaps (hSound : disk.IsSound) {result : TranslationGaps}
    (hResult : findGaps disk directory base = .ok result) :
    ∃ result', findGaps disk' directory base = .ok result' ∧
      ∀ key locale, disk.place? (pathOf directory locale) ≠ some place →
        (Lists result' key locale ↔ Lists result key locale) := by
  rcases findGaps_eq_ok_iff.mp hResult with ⟨locales, hLoad, hGaps⟩
  rcases h.exists_loadAll hLoad with ⟨locales', hLoad'⟩
  have hSame : ∀ locale, disk.place? (pathOf directory locale) ≠ some place →
      locales'.get? locale = locales.get? locale :=
    fun _ hOther => h.get?_eq hSound hLoad hLoad' hOther
  have hBase := exists_gaps_iff.mp ⟨result, hGaps⟩
  rw [← hSame base h.notBase] at hBase
  rcases exists_gaps_iff.mpr hBase with ⟨result', hGaps'⟩
  refine ⟨result', findGaps_eq_ok_iff.mpr ⟨locales', hLoad', hGaps'⟩, ?_⟩
  intro key locale hOther
  rw [lists_iff_of_gaps hGaps', lists_iff_of_gaps hGaps, hSame locale hOther,
    hSame base h.notBase]

end Changes

/--
The gaps between the catalogs of a directory. A file is what the path of a directory entry leads to,
and a leaf of a catalog is what the catalog is flattened to.
-/
theorem accounts_findGaps (hSound : disk.IsSound) (directory : Path) (base : String) :
    Accounts disk directory base := by
  constructor
  case succeeds_iff => exact exists_findGaps_iff hSound
  case contributes => exact fun _ hLoad _ _ => get?_of_loadAll hSound hLoad
  case lists_iff => exact fun _ h _ _ => lists_iff_isGap hSound h
  case nonempty =>
    intro result h key missing hMissing
    rcases findGaps_eq_ok_iff.mp h with ⟨locales, _, hGaps⟩
    rcases (get?_of_gaps hGaps).mp hMissing with ⟨_, _, _, _, _, hSome⟩
    rw [← Bool.not_eq_true, SortedSet.isEmpty_iff, not_forall_not] at hSome
    exact hSome
  case keys_ascending =>
    intro result _
    exact List.pairwise_map.mpr (List.pairwise_map.mpr (result.ascending.imp bytesOf_lt))
  case locales_ascending =>
    intro _ _ _ missing _
    exact List.pairwise_map.mpr (missing.ascending.imp bytesOf_lt)
  case unaffected => exact fun _ hResult _ _ _ h => h.exists_findGaps hSound hResult

end Directory

def localesDisk : Disk where
  top := .directory
    [(bytesOf "locales", .directory
      [(bytesOf "de.json", .link (bytesOf "../shared/de.json")),
        (bytesOf "en.json", .file (bytesOf "\x7b\"menu\":\"Menu\",\"exit\":\"Exit\"\x7d")),
        (bytesOf "eng.json", .file (bytesOf "no catalog")),
        (bytesOf "fr.json", .file (bytesOf "\x7b\"exit\":\"Sortie\",\"more\":\"Plus\"\x7d")),
        (bytesOf "xx.json", .directory [])]),
      (bytesOf "shared", .directory
        [(bytesOf "de.json", .file (bytesOf "\x7b\"menu\":\"Menu\",\"exit\":\"Exit\"\x7d"))])]
  cwd := []

def localesDirectory : Path := bytesOf "locales"

def addedLocale : Disk :=
  { localesDisk with
    top := localesDisk.top.put [localesDirectory] (bytesOf "it.json") (.file (bytesOf "\x7b\x7d")) }

theorem accounts_findGaps_localesDisk :
    localesDisk.IsSound ∧
      findGaps localesDisk localesDirectory "en" =
        .ok (.ofList [("exit", .ofList ["de"]), ("menu", .ofList ["de", "fr"])]) ∧
      ChangesOther localesDisk localesDirectory "en" "it"
        [localesDirectory, bytesOf "it.json"] addedLocale ∧
      Accounts localesDisk localesDirectory "en" := by
  have hSound : localesDisk.IsSound := by decide
  have hDirectory : localesDisk.top.IsDirectoryAt [localesDirectory] := ⟨_, rfl⟩
  have hName : FileTree.IsFileName (bytesOf "it.json") := by decide
  have hFree : localesDisk.top.IsFilePlace ([localesDirectory] ++ [bytesOf "it.json"]) := Or.inl rfl
  refine ⟨hSound, by decide +kernel, ?_, accounts_findGaps hSound localesDirectory "en"⟩
  constructor
  case changed => exact FileTree.Disk.changedAt_put hSound hDirectory hName hFree _
  case leads => decide
  case notBase => decide
  case file => exact ⟨rfl, ⟨_, rfl, by decide⟩, by decide⟩
  case loads => exact ⟨.empty, by decide +kernel⟩

end Locale
end CatalogAudit
