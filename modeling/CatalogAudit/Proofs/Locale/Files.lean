import CatalogAudit.Proofs.FileTree.Changes
import CatalogAudit.Proofs.Locale.Messages
import CatalogAudit.Proofs.Text.Pieces

/-!
# The locales of a directory

A file right inside the directory whose name is a code of two characters and `.json` holds the
messages of the locale with this code. The name can be told from the code, so no locale is held by
two files, and each file counts.
-/

namespace CatalogAudit

/-!
# Names of locale files
-/

namespace Path

/-- The last dot of a name is the first one from its end. -/
theorem splitExtension_of_reverse {name before behind : Path}
    (h : name.reverse = before ++ dot :: behind) (hDot : dot ∉ before) :
    splitExtension name =
      if behind = [] then (name, none) else (behind.reverse, some before.reverse) := by
  have hBefore : ∀ b ∈ before, decide (b ≠ dot) = true := by
    intro b hMem
    rw [decide_eq_true_eq]
    rintro rfl
    exact hDot hMem
  have hDrop : (before ++ dot :: behind).dropWhile (· ≠ dot) = dot :: behind := by
    rw [List.dropWhile_append_of_pos hBefore, List.dropWhile_cons_of_neg (by simp)]
  have hTake : (before ++ dot :: behind).takeWhile (· ≠ dot) = before := by
    rw [List.takeWhile_append_of_pos hBefore, List.takeWhile_cons_of_neg (by simp),
      List.append_nil]
  unfold splitExtension
  rw [h]
  simp only [hDrop, hTake]
  cases behind with
  | nil => rfl
  | cons b bs => rfl

theorem splitExtension_of_not_mem {name : Path} (h : dot ∉ name) :
    splitExtension name = (name, none) := by
  have hDrop : name.reverse.dropWhile (· ≠ dot) = [] := by
    rw [List.dropWhile_eq_nil_iff]
    intro b hMem
    rw [decide_eq_true_eq]
    rintro rfl
    exact h (List.mem_reverse.mp hMem)
  unfold splitExtension
  simp only [hDrop]

theorem splitExtension_eq_some_iff {name stem extension : Path} :
    splitExtension name = (stem, some extension) ↔
      stem ≠ [] ∧ dot ∉ extension ∧ name = stem ++ dot :: extension := by
  constructor
  · intro h
    by_cases hMem : dot ∈ name.reverse
    · rcases List.eq_append_cons_of_mem hMem with ⟨before, behind, hName, hDot⟩
      rw [splitExtension_of_reverse hName hDot] at h
      split at h
      · cases h
      · rename_i hStem
        cases h
        refine ⟨?_, by simpa using hDot, ?_⟩
        · simpa using hStem
        · rw [← List.reverse_inj, hName]
          simp
    · rw [splitExtension_of_not_mem fun hDot => hMem (List.mem_reverse.mpr hDot)] at h
      cases h
  · intro h
    rcases h with ⟨hStem, hDot, rfl⟩
    have hName : (stem ++ dot :: extension).reverse =
        extension.reverse ++ dot :: stem.reverse := by
      simp
    rw [splitExtension_of_reverse hName (by simpa using hDot), if_neg]
    · simp
    · rw [List.reverse_eq_nil_iff]
      exact hStem

end Path

namespace Locale

open FileTree (Disk)

def fileName (locale : String) : FileTree.Name :=
  bytesOf (locale ++ ".json")

def pathOf (directory : Path) (locale : String) : Path :=
  Path.join directory (fileName locale)

theorem bytesOf_ne_nil {text : String} (h : text ≠ "") : bytesOf text ≠ [] := by
  intro hNil
  have hText := textOf?_bytesOf text
  rw [hNil] at hText
  exact h (Option.some.inj hText).symm

theorem splitExtension_fileName {locale : String} (h : locale ≠ "") :
    Path.splitExtension (fileName locale) = (bytesOf locale, some (bytesOf "json")) := by
  refine Path.splitExtension_eq_some_iff.mpr ⟨bytesOf_ne_nil h, by decide, ?_⟩
  exact bytesOf_append locale ".json"

theorem eq_fileName_of_splitExtension {name stem : FileTree.Name} {locale : String}
    (hSplit : Path.splitExtension name = (stem, some (bytesOf "json")))
    (hStem : textOf? stem = some locale) : name = fileName locale := by
  rw [(Path.splitExtension_eq_some_iff.mp hSplit).2.2, ← bytesOf_of_textOf? hStem]
  exact (bytesOf_append locale ".json").symm

theorem localeOf?_eq_some_iff {name : FileTree.Name} {locale : String} :
    localeOf? name = some locale ↔ locale.length = codeLength ∧ name = fileName locale := by
  unfold localeOf?
  constructor
  · intro h
    split at h
    · rename_i stem extension hSplit
      split at h
      · rename_i hExtension
        rw [hExtension] at hSplit
        rcases Option.filter_eq_some_iff.mp h with ⟨hStem, hLength⟩
        exact ⟨of_decide_eq_true hLength, eq_fileName_of_splitExtension hSplit hStem⟩
      · cases h
    · cases h
  · intro h
    rcases h with ⟨hLength, rfl⟩
    have hNonempty : locale ≠ "" := by
      rintro rfl
      cases hLength
    rw [splitExtension_fileName hNonempty]
    simp only [if_true, textOf?_bytesOf]
    exact Option.filter_eq_some_iff.mpr ⟨rfl, decide_eq_true hLength⟩

/-!
# Files right inside a directory
-/

/-- The directory has a locale's file. Links are followed, so it may stand elsewhere. -/
structure HasFile (disk : Disk) (directory : Path) (locale : String) : Prop where
  code : locale.length = codeLength
  entry : ∃ names, disk.listDirectory directory = .ok names ∧ fileName locale ∈ names
  file : disk.isFile (pathOf directory locale) = true

section Directory

variable {disk : Disk} {directory : Path} {names : List FileTree.Name}
  {found : List LocaleFile}

theorem exists_files (h : disk.listDirectory directory = .ok names) :
    ∃ found, files disk directory = .ok found := by
  unfold files
  rw [h]
  exact ⟨_, rfl⟩

theorem exists_pick_of_files (h : files disk directory = .ok found) :
    ∃ names pick, disk.listDirectory directory = .ok names ∧ found = names.filterMap pick ∧
      ∀ name file, pick name = some file ↔ localeOf? name = some file.locale ∧
        file.path = Path.join directory name ∧ disk.isFile file.path = true := by
  rcases bind_eq_ok.mp h with ⟨names, hNames, hFound⟩
  refine ⟨names, _, withContext_eq_ok.mp hNames, (Except.ok.inj hFound).symm, ?_⟩
  intro name file
  obtain ⟨locale, path⟩ := file
  by_cases hFile : disk.isFile (Path.join directory name) = true
  · simp only [hFile, if_true, Option.map_eq_some_iff, LocaleFile.mk.injEq]
    constructor
    · intro hPick
      rcases hPick with ⟨_, hLocale, rfl, rfl⟩
      exact ⟨hLocale, rfl, hFile⟩
    · intro hPick
      exact ⟨locale, hPick.1, rfl, hPick.2.1.symm⟩
  · simp only [hFile, Bool.false_eq_true, if_false, reduceCtorEq, false_iff]
    rintro ⟨_, rfl, hThere⟩
    exact hFile hThere

theorem mem_files_iff (h : files disk directory = .ok found) (file : LocaleFile) :
    file ∈ found ↔
      HasFile disk directory file.locale ∧ file.path = pathOf directory file.locale := by
  rcases exists_pick_of_files h with ⟨names, pick, hNames, rfl, hPick⟩
  simp only [List.mem_filterMap, hPick, localeOf?_eq_some_iff]
  constructor
  · intro hMem
    rcases hMem with ⟨_, hName, ⟨hCode, rfl⟩, hPath, hFile⟩
    rw [hPath] at hFile
    exact ⟨⟨hCode, ⟨names, hNames, hName⟩, hFile⟩, hPath⟩
  · intro hMem
    rcases hMem with ⟨⟨hCode, ⟨_, hNames', hName⟩, hFile⟩, hPath⟩
    cases hNames.symm.trans hNames'
    rw [← hPath] at hFile
    exact ⟨fileName file.locale, hName, ⟨hCode, rfl⟩, hPath, hFile⟩

theorem nodup_of_listDirectory (hSound : disk.IsSound)
    (h : disk.listDirectory directory = .ok names) : names.Nodup := by
  rcases FileTree.Disk.listDirectory_eq_ok.mp h with ⟨location, entries, hResolve, rfl⟩
  have hAt := FileTree.Disk.isIn_of_locate (FileTree.Disk.resolve_eq_ok.mp hResolve)
  refine (FileTree.Node.pairwise_names hSound.top hAt).imp ?_
  rintro name _ hLess rfl
  exact List.lt_irrefl name hLess

theorem nodup_locales_files (hSound : disk.IsSound) (h : files disk directory = .ok found) :
    (found.map (·.locale)).Nodup := by
  rcases exists_pick_of_files h with ⟨names, pick, hNames, rfl, hPick⟩
  rw [List.map_filterMap]
  apply (nodup_of_listDirectory hSound hNames).filterMap
  intro name other locale hName hOther
  have hNamed : ∀ name, locale ∈ (pick name).map (·.locale) → name = fileName locale := by
    intro name hMem
    rcases Option.mem_map.mp hMem with ⟨file, hFile, rfl⟩
    exact (localeOf?_eq_some_iff.mp ((hPick name file).mp hFile).1).2
  rw [hNamed name hName, hNamed other hOther]

/-!
# Loaded locales
-/

theorem exists_loadFiles_iff :
    (∃ locales, loadFiles disk found = .ok locales) ↔
      ∀ file ∈ found, ∃ messages, load disk file.path = .ok messages := by
  have hSteps : (∃ locales, loadFiles disk found = .ok locales) ↔
      ∃ loaded, (found.mapM fun file => do
        let messages ← load disk file.path
        return (file.locale, messages)) = .ok loaded := by
    unfold loadFiles
    simp only [bind_eq_ok]
    constructor
    · intro h
      rcases h with ⟨_, loaded, hLoaded, _⟩
      exact ⟨loaded, hLoaded⟩
    · intro h
      rcases h with ⟨loaded, hLoaded⟩
      exact ⟨_, loaded, hLoaded, rfl⟩
  rw [hSteps, exists_mapM_iff]
  apply forall₂_congr
  intro file _
  constructor
  · intro h
    rcases h with ⟨_, hStep⟩
    rcases bind_eq_ok.mp hStep with ⟨messages, hMessages, _⟩
    exact ⟨messages, hMessages⟩
  · intro h
    rcases h with ⟨messages, hMessages⟩
    exact ⟨_, bind_eq_ok.mpr ⟨messages, hMessages, rfl⟩⟩

theorem get?_of_loadFiles (hNodup : (found.map (·.locale)).Nodup) {locales : Locales}
    (h : loadFiles disk found = .ok locales) {locale : String} {messages : Messages} :
    locales.get? locale = some messages ↔
      ∃ file ∈ found, file.locale = locale ∧ load disk file.path = .ok messages := by
  rcases bind_eq_ok.mp h with ⟨loaded, hLoaded, hLocales⟩
  cases hLocales
  have hLocale : loaded.map (·.1) = found.map (·.locale) := by
    apply map_eq_of_mapM_eq_ok _ hLoaded
    intro file value hStep
    rcases bind_eq_ok.mp hStep with ⟨_, _, hValue⟩
    cases hValue
    rfl
  rw [SortedMap.get?_ofList (hLocale ▸ hNodup), mem_of_mapM_eq_ok hLoaded]
  apply exists_congr
  intro file
  apply and_congr_right
  intro _
  rw [bind_eq_ok]
  constructor
  · intro hStep
    rcases hStep with ⟨_, hMessages, hValue⟩
    cases hValue
    exact ⟨rfl, hMessages⟩
  · intro hStep
    rcases hStep with ⟨rfl, hMessages⟩
    exact ⟨messages, hMessages, rfl⟩

theorem ne_nil_files_iff (h : files disk directory = .ok found) :
    found ≠ [] ↔ ∃ locale, HasFile disk directory locale := by
  constructor
  · intro hSome
    rcases List.exists_mem_of_ne_nil found hSome with ⟨file, hFile⟩
    exact ⟨file.locale, ((mem_files_iff h file).mp hFile).1⟩
  · intro hSome
    rcases hSome with ⟨locale, hFile⟩
    exact List.ne_nil_of_mem
      ((mem_files_iff h ⟨locale, pathOf directory locale⟩).mpr ⟨hFile, rfl⟩)

theorem forall_mem_files_iff (h : files disk directory = .ok found) (holds : Path → Prop) :
    (∀ file ∈ found, holds file.path) ↔
      ∀ locale, HasFile disk directory locale → holds (pathOf directory locale) := by
  constructor
  · intro hAll locale hFile
    exact hAll ⟨locale, pathOf directory locale⟩ ((mem_files_iff h _).mpr ⟨hFile, rfl⟩)
  · intro hAll file hMem
    rcases (mem_files_iff h file).mp hMem with ⟨hFile, hPath⟩
    rw [hPath]
    exact hAll file.locale hFile

theorem exists_loadAll_iff :
    (∃ locales, loadAll disk directory = .ok locales) ↔
      (∃ locale, HasFile disk directory locale) ∧
        ∀ locale, HasFile disk directory locale →
          ∃ messages, load disk (pathOf directory locale) = .ok messages := by
  unfold loadAll
  cases hFound : files disk directory with
  | error fault =>
      have hNone : ¬∃ locale, HasFile disk directory locale := by
        intro hSome
        rcases hSome with ⟨locale, hFile⟩
        rcases hFile.entry with ⟨names, hNames, _⟩
        rcases exists_files hNames with ⟨found, hFiles⟩
        cases hFound.symm.trans hFiles
      simp [bind, Except.bind, hNone]
  | ok found =>
      have hEach := forall_mem_files_iff hFound fun path =>
        ∃ messages, load disk path = .ok messages
      rw [← ne_nil_files_iff hFound, ← hEach, ← exists_loadFiles_iff]
      cases found with
      | nil => simp [bind, Except.bind]
      | cons file found => simp [bind, Except.bind]

theorem get?_of_loadAll (hSound : disk.IsSound) {locales : Locales}
    (h : loadAll disk directory = .ok locales) {locale : String} {messages : Messages} :
    locales.get? locale = some messages ↔
      HasFile disk directory locale ∧ load disk (pathOf directory locale) = .ok messages := by
  rcases bind_eq_ok.mp h with ⟨found, hFound, hLoad⟩
  split at hLoad
  · cases hLoad
  · rw [get?_of_loadFiles (nodup_locales_files hSound hFound) hLoad]
    constructor
    · intro hFile
      rcases hFile with ⟨file, hFile, rfl, hMessages⟩
      rcases (mem_files_iff hFound file).mp hFile with ⟨hHas, hPath⟩
      rw [hPath] at hMessages
      exact ⟨hHas, hMessages⟩
    · intro hFile
      rcases hFile with ⟨hHas, hMessages⟩
      exact ⟨⟨locale, pathOf directory locale⟩, (mem_files_iff hFound _).mpr ⟨hHas, rfl⟩, rfl,
        hMessages⟩

end Directory

/-!
# A file that changes

The file of one locale may be there or not, and may hold anything. The others count as before.
-/

section Readable

variable {disk disk' : Disk} {path path' : Path}

theorem addEntries_eq_ok_congr (path path' : Path) {entries : List Catalog.Entry}
    {messages result : Messages} :
    addEntries path' entries messages = .ok result ↔
      addEntries path entries messages = .ok result := by
  induction entries generalizing messages with
  | nil => exact Iff.rfl
  | cons entry entries ih =>
      cases hKey : messages.get? entry.key with
      | some value => simp [addEntries_of_taken hKey]
      | none => rw [addEntries_of_fresh hKey, addEntries_of_fresh hKey, ih]

/-- The path of a file and the disk matter only for what a fault says. -/
theorem load_eq_ok_congr (h : (disk'.readText path').toOption = (disk.readText path).toOption)
    {messages : Messages} : load disk' path' = .ok messages ↔ load disk path = .ok messages := by
  simp only [load, Catalog.load, bind_eq_ok, withContext_eq_ok, eq_ok_congr h]
  exact exists_congr fun flat => and_congr_right fun _ => addEntries_eq_ok_congr path path'

end Readable

theorem exists_listed_iff {disk : Disk} (hSound : disk.IsSound) {directory : Path}
    {name : FileTree.Name}
    {location : FileTree.Location} {entries : FileTree.Entries}
    (hDirectory : disk.resolve directory = .ok (location, .directory entries)) :
    (∃ names, disk.listDirectory directory = .ok names ∧ name ∈ names) ↔
      (disk.top.at? (location ++ [name])).isSome = true := by
  have hAt := FileTree.Disk.isIn_of_locate (FileTree.Disk.resolve_eq_ok.mp hDirectory)
  have hNames : disk.listDirectory directory = .ok (entries.map (·.1)) :=
    FileTree.Disk.listDirectory_eq_ok.mpr ⟨location, entries, hDirectory, rfl⟩
  rw [hNames, ← FileTree.Node.mem_names hSound.top hAt]
  simp

theorem HasFile.exists_directory {disk : Disk} {directory : Path} {locale : String}
    (h : HasFile disk directory locale) :
    ∃ location entries, disk.resolve directory = .ok (location, .directory entries) := by
  rcases h.entry with ⟨names, hNames, _⟩
  rcases FileTree.Disk.listDirectory_eq_ok.mp hNames with ⟨location, entries, hResolve, _⟩
  exact ⟨location, entries, hResolve⟩

theorem HasFile.place?_eq {disk : Disk} (hSound : disk.IsSound) {directory : Path}
    {locale : String}
    (h : HasFile disk directory locale) {location : FileTree.Location} {entries : FileTree.Entries}
    (hDirectory : disk.resolve directory = .ok (location, .directory entries))
    {content : Utf8.Bytes}
    (hFile : disk.top.at? (location ++ [fileName locale]) = some (.file content)) :
    disk.place? (pathOf directory locale) = some (location ++ [fileName locale]) := by
  rcases FileTree.Disk.isFile_iff.mp h.file with ⟨_, _, hResolve⟩
  have hPath := FileTree.Disk.checkPath_of_locate (FileTree.Disk.resolve_eq_ok.mp hResolve)
  have hNames : ∀ name ∈ [fileName locale], FileTree.IsFileName name := fun name hName =>
    hSound.top.isFileName_of_mem hFile name (List.mem_append_right location hName)
  have hLocate := FileTree.Disk.locate_pathBelow hDirectory (List.cons_ne_nil _ _) hNames hPath
    hFile
  exact FileTree.Disk.place?_of_resolve (FileTree.Disk.resolve_eq_ok.mpr hLocate)

section Changed

variable {disk disk' : Disk} {place : FileTree.Location} (h : disk.ChangedAt place disk')
  {directory : Path} {locale : String}
include h

theorem HasFile.of_changedAt (hFile : HasFile disk directory locale) :
    HasFile disk' directory locale := by
  rcases hFile.exists_directory with ⟨location, entries, hDirectory⟩
  rcases h.exists_directory hDirectory with ⟨entries', hDirectory'⟩
  have hChanged : disk.ChangedIn (· = place) disk' := .of_changedAt h rfl
  refine ⟨hFile.code, (exists_listed_iff h.sound' hDirectory').mpr ?_,
    hChanged.isFile hFile.file⟩
  by_cases hPlace : location ++ [fileName locale] = place
  · rcases h.file with ⟨content, hContent⟩
    rw [hPlace, hContent]
    rfl
  · rw [h.isSome_at?_eq_of_ne hPlace]
    exact (exists_listed_iff h.sound hDirectory).mp hFile.entry

theorem hasFile_iff_of_changedAt (hOther : disk.place? (pathOf directory locale) ≠ some place) :
    HasFile disk' directory locale ↔ HasFile disk directory locale := by
  refine ⟨fun hFile => ?_, HasFile.of_changedAt h⟩
  rcases hFile.exists_directory with ⟨location, entries, hDirectory'⟩
  rcases h.exists_directory_before hDirectory' with ⟨entries', hDirectory⟩
  refine ⟨hFile.code, (exists_listed_iff h.sound hDirectory).mpr ?_, ?_⟩
  · have hPlace : location ++ [fileName locale] ≠ place := by
      rintro rfl
      rcases h.file with ⟨content, hContent⟩
      exact hOther ((h.place?_eq _).symm.trans (hFile.place?_eq h.sound' hDirectory' hContent))
    rw [← h.isSome_at?_eq_of_ne hPlace]
    exact (exists_listed_iff h.sound' hDirectory').mp hFile.entry
  · rcases FileTree.Disk.isFile_iff.mp hFile.file with ⟨found, content, hResolve⟩
    have hOutline := h.outline?_eq hOther
    rw [FileTree.Disk.outline?_eq_some hResolve] at hOutline
    rcases FileTree.Disk.exists_resolve_of_outline? hOutline.symm with ⟨node, hNode, hSame⟩
    rw [FileTree.Node.file_of_outline hSame] at hNode
    exact FileTree.Disk.isFile_iff.mpr ⟨found, content, hNode⟩

end Changed

end Locale
end CatalogAudit
