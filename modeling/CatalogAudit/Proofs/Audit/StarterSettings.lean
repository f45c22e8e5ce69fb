import CatalogAudit.Proofs.Audit.ExtraFile
import CatalogAudit.Proofs.Audit.InsideProject

/-!
# The first settings file

A project that has no settings file gets one with the default settings. They are found in the file
then, and are the ones that counted without it, for paths seen from the same directory. So a command
goes as before, as long as none of the paths that it follows leads to the new file.
-/

namespace CatalogAudit

open FileTree (Disk IsFileName Location Node pathTo)
open Utf8 (Bytes)

/-!
# Catalogs of locales
-/

theorem Locale.load_of_readBytes {disk : Disk} {path : Path} {text : String} {root : Json}
    {messages : Messages} (h : disk.readBytes path = .ok (bytesOf text))
    (hParse : Json.parse (bytesOf text) = .ok root)
    (hAdd : addEntries path (Catalog.flatten root).entries .empty = .ok messages) :
    load disk path = .ok messages := by
  unfold load Catalog.load
  rw [Disk.readText_of_readBytes h]
  simp only [withContext, bind, Except.bind, hParse]
  exact hAdd

theorem Locale.loadAll_of_pair {disk : Disk} {directory : Path} {file other : LocaleFile}
    (hFiles : files disk directory = .ok [file, other]) {messages messages' : Messages}
    (hFile : load disk file.path = .ok messages) (hOther : load disk other.path = .ok messages') :
    loadAll disk directory =
      .ok (.ofList [(file.locale, messages), (other.locale, messages')]) := by
  unfold loadAll loadFiles
  rw [hFiles]
  simp only [bind, Except.bind, List.isEmpty_cons, Bool.false_eq_true, if_false, List.mapM_cons,
    List.mapM_nil, hFile, hOther]
  rfl

namespace Settings

/-!
# The file
-/

def starterPlace (disk : Disk) : Location :=
  disk.cwd ++ [fileName]

def starterBytes : Bytes :=
  bytesOf (default.text ++ "\n")

def withStarter (disk : Disk) : Disk :=
  { disk with top := disk.top.put disk.cwd fileName (.file starterBytes) }

theorem place?_starterPath {disk : Disk} (h : disk.top.IsFilePlace (starterPlace disk)) :
    disk.place? starterPath = some (starterPlace disk) := by
  apply FileTree.targetPlace?_of_endsAt
  rw [locate_starterPath]
  exact FileTree.endsAt_follow_entry isFileName_fileName.toIsEntryName rfl h

theorem writeStarter_of_free {disk : Disk} (hDirectory : disk.top.IsDirectoryAt disk.cwd)
    (h : disk.top.at? (starterPlace disk) = none) :
    writeStarter disk = .ok (withStarter disk) := by
  have hLocate : disk.locate true starterPath = .ok (.absent disk.cwd fileName) := by
    unfold starterPlace at h
    rw [locate_starterPath, FileTree.follow_entry isFileName_fileName.toIsEntryName rfl, h]
    rfl
  have hNew : disk.exists? starterPath = false := by
    unfold Disk.exists? Disk.resolve
    rw [hLocate]
    rfl
  have hSlash : Disk.endsInSlash starterPath = false := by
    decide +kernel
  unfold writeStarter
  rw [hNew, Disk.write_of_absent hSlash hDirectory hLocate]
  rfl

/-!
# The settings in the file
-/

theorem starterBytes_eq :
    starterBytes = Utf8.encode (Json.indentedChars 0 default.toJson ++ ['\n']) := by
  unfold starterBytes bytesOf text Json.indented
  rw [String.toList_append, String.toList_ofList]
  rfl

theorem parse_starterBytes : parse starterBytes = .ok default := by
  rw [← toOption_eq_some, starterBytes_eq]
  decide +kernel

theorem check_default : default.check = .ok () :=
  rfl

theorem read_of_readBytes {disk : Disk} {path : Path} {text : String} {settings : Settings}
    (h : disk.readBytes path = .ok (bytesOf text)) (hParse : parse (bytesOf text) = .ok settings)
    (hCheck : settings.check = .ok ()) : read disk path = .ok settings := by
  unfold read
  rw [Disk.readText_of_readBytes h]
  simp only [withContext, bind, Except.bind, hParse, hCheck]
  rfl

/-!
# Finding the file
-/

theorem findIn_eq_none_of_changedAt {place : Location} {disk disk' : Disk}
    (h : disk.ChangedAt place disk') {directories : List Path}
    (hPlaces : ∀ directory ∈ directories,
      disk.place? (Path.join directory fileName) ≠ some place)
    (hNone : findIn disk directories = none) : findIn disk' directories = none := by
  induction directories with
  | nil => rfl
  | cons directory above ih =>
      have hAbove := ih fun other hOther => hPlaces other (List.mem_cons_of_mem directory hOther)
      unfold findIn at hNone ⊢
      rw [h.exists?_eq (hPlaces directory (List.mem_cons_self ..))]
      by_cases hFile : disk.exists? (Path.join directory fileName) = true
      · rw [if_pos hFile] at hNone
        cases hNone
      · rw [if_neg hFile] at hNone ⊢
        by_cases hMark : disk.exists? (Path.join directory repositoryMark) = true
        · rw [if_pos (h.exists?_of_exists? hMark)]
        · rw [if_neg hMark] at hNone
          rw [hAbove hNone, ite_self]

end Settings

namespace Audit

open CommandLine (Command UnusedArguments UntranslatedArguments)
open Settings (starterBytes starterPath starterPlace withStarter)

def defaultProject (disk : Disk) : Project :=
  ⟨.default, none, disk.cwdPath⟩

theorem load_of_find?_none {disk : Disk} (hDirectory : disk.top.IsDirectoryAt disk.cwd)
    (hNone : Settings.find? disk disk.cwdPath = none) :
    Project.load disk = .ok (defaultProject disk) := by
  rw [Project.load_eq_loadFrom hDirectory]
  unfold Project.loadFrom
  rw [hNone]
  rfl

section Starter

variable {disk : Disk} (hSound : disk.IsSound) (hFree : disk.top.at? (starterPlace disk) = none)
include hSound hFree

theorem changedAt_withStarter : disk.ChangedAt (starterPlace disk) (withStarter disk) :=
  Disk.changedAt_put hSound hSound.cwd Settings.isFileName_fileName (Or.inl hFree) starterBytes

theorem hasExtra_withStarter :
    HasExtra disk (starterPlace disk) starterBytes disk (withStarter disk) := by
  rcases hSound.cwd with ⟨entries, hEntries⟩
  constructor
  case changed => exact changedAt_withStarter hSound hFree
  case kept =>
    rw [hFree]
    exact Node.at?_put_self hEntries Settings.fileName (.file starterBytes)
  case asked => exact fun _ => rfl
  case places => exact fun _ => rfl
  case canonicalPlaces => exact fun _ => rfl

omit hFree in
theorem load_withStarter
    (hCheck : Disk.checkPath (Path.join disk.cwdPath Settings.fileName) = .ok ()) :
    Project.load (withStarter disk) =
      .ok ⟨.default, some (Path.join disk.cwdPath Settings.fileName), disk.cwdPath⟩ := by
  rcases hSound.cwd with ⟨entries, hEntries⟩
  have hNames := hSound.top.isFileName_of_mem hEntries
  have hAll : ∀ name ∈ starterPlace disk, IsFileName name := by
    intro name hName
    rcases List.mem_append.mp hName with hAbove | hLast
    · exact hNames name hAbove
    · cases List.mem_singleton.mp hLast
      exact Settings.isFileName_fileName
  have hJoin : Path.join disk.cwdPath Settings.fileName = pathTo (starterPlace disk) :=
    FileTree.join_pathTo hNames Settings.isFileName_fileName
  have hFile : (withStarter disk).top.at? (starterPlace disk) = some (.file starterBytes) :=
    Node.at?_put_self hEntries Settings.fileName (.file starterBytes)
  have hNonempty : starterPlace disk ≠ [] := List.append_ne_nil_of_right_ne_nil _ (by simp)
  rw [hJoin] at hCheck
  have hResolve := Disk.resolve_eq_ok.mpr (Disk.locate_pathTo hNonempty hAll hCheck hFile true)
  -- The file is where its path leads, and the search asks there first.
  have hRead : (withStarter disk).readBytes (pathTo (starterPlace disk)) = .ok starterBytes := by
    unfold Disk.readBytes
    rw [hResolve]
    rfl
  have hFound : Settings.find? (withStarter disk) (withStarter disk).cwdPath =
      some (Path.join (pathTo disk.cwd) Settings.fileName) := by
    apply find?_of_exists?
    show (withStarter disk).exists? (Path.join disk.cwdPath Settings.fileName) = true
    rw [hJoin]
    exact Disk.exists?_iff.mpr ⟨_, hResolve⟩
  have hDirectory : (withStarter disk).top.IsDirectoryAt (withStarter disk).cwd :=
    Node.isDirectoryAt_of_append (List.cons_ne_nil Settings.fileName []) hFile
  have hPath : Path.join (pathTo disk.cwd) Settings.fileName = pathTo (starterPlace disk) := hJoin
  rw [Project.load_eq_loadFrom hDirectory, loadFrom_of_find? hNames hFound, hPath, hJoin,
    Settings.read_of_readBytes hRead Settings.parse_starterBytes Settings.check_default]
  rfl

/-- With the file and without it the same settings count, for paths seen from the same directory. -/
theorem sameProject_withStarter (hNone : Settings.find? disk disk.cwdPath = none)
    (hAbove : Disk.checkPath (Path.join disk.cwdPath Settings.fileName) = .ok () ∨
      ∀ directory ∈ Path.ancestors disk.cwdPath,
        disk.place? (Path.join directory Settings.fileName) ≠ some (starterPlace disk)) :
    SameProject (Project.load disk) (Project.load (withStarter disk)) := by
  rw [load_of_find?_none hSound.cwd hNone]
  rcases hAbove with hCheck | hPlaces
  · rw [load_withStarter hSound hCheck]
    exact .ok _ _ _ _
  · have hNone' : Settings.find? (withStarter disk) (withStarter disk).cwdPath = none :=
      Settings.findIn_eq_none_of_changedAt (changedAt_withStarter hSound hFree) hPlaces hNone
    have hSound' := (changedAt_withStarter hSound hFree).sound'
    rw [load_of_find?_none hSound'.cwd hNone']
    exact .ok _ _ _ _

end Starter

theorem misses_starterPlace (disk : Disk) (arguments : UnusedArguments) :
    SourceScan.Misses disk (UnusedKeys.scanRequest (defaultProject disk) arguments)
      (starterPlace disk) := by
  have hAll : ∀ patterns ∈
      (SourceScan.compilePatterns Settings.default.sourcePatterns).toOption,
        SourceScan.isSource patterns Settings.fileName = false := by
    decide +kernel
  apply SourceScan.misses_of_name disk List.getLast?_concat
  intro patterns hPatterns
  exact hAll patterns (toOption_eq_some.mpr hPatterns)

/-!
# Making the file
-/

theorem run_init_of_free (time : String) {disk : Disk}
    (hDirectory : disk.top.IsDirectoryAt disk.cwd)
    (hFree : disk.top.at? (starterPlace disk) = none) :
    run time disk .init =
      ⟨withStarter disk, [], .ok (.settingsCreated starterPath), .success⟩ := by
  have hRun : (perform time .init).run.run ⟨disk, []⟩ =
      (.ok (.settingsCreated starterPath), ⟨withStarter disk, []⟩) := by
    unfold perform
    rw [Work.run_bind, Work.run_change, Settings.writeStarter_of_free hDirectory hFree]
    rfl
  unfold run
  rw [hRun]
  rfl

def RefusesInit (disk : Disk) : Prop :=
  ∀ time, (run time disk .init).status = .failure ∧ (run time disk .init).disk = disk

theorem refusesInit_of_hasExtra {start disk disk' : Disk}
    (hFree : start.top.at? (starterPlace start) = none)
    (h : HasExtra start (starterPlace start) starterBytes disk disk') : RefusesInit disk' := by
  intro time
  have hPlace : disk'.place? starterPath = some (starterPlace start) := by
    rw [h.changed.place?_eq, h.places]
    exact Settings.place?_starterPath (Or.inl hFree)
  have hThere : disk'.exists? starterPath = true := by
    rcases h.changed.file with ⟨content, hFile⟩
    exact Disk.exists?_iff.mpr ⟨_, Disk.resolve_of_place? hPlace hFile⟩
  have hRun : (perform time .init).run.run ⟨disk', []⟩ =
      (.error ⟨.of (.settingsExist Settings.fileName.shown), none⟩, ⟨disk', []⟩) := by
    unfold perform Settings.writeStarter
    rw [Work.run_bind, Work.run_change]
    simp only [hThere, if_true]
  unfold run
  rw [hRun]
  exact ⟨rfl, rfl⟩

/-!
# The same command with the file
-/

/-- Both runs show the same and leave the same files, apart from the settings file. -/
structure SameBesideStarter (disk : Disk) (before after : Outcome) : Prop where
  status : after.status = before.status
  outputLines : Console.outputLines after.result = Console.outputLines before.result
  errorLines : ∀ shows, Console.errorLines shows after = Console.errorLines shows before
  others : before.disk.AgreesOutside (· = starterPlace disk) after.disk
  starter : after.disk.top.at? (starterPlace disk) =
    (before.disk.top.at? (starterPlace disk)).or (some (.file starterBytes))

theorem SameOutcome.sameBesideStarter {disk : Disk} {before after : Outcome}
    (h : SameOutcome (HasExtra disk (starterPlace disk) starterBytes) before after) :
    SameBesideStarter disk before after where
  status := h.status
  outputLines := by rw [h.result]
  errorLines shows := by
    unfold Console.errorLines
    rw [h.notes, h.result]
  others := by
    have hChanged : before.disk.ChangedIn (· = starterPlace disk) after.disk :=
      .of_changedAt h.disks.changed rfl
    exact hChanged.agreesOutside
  starter := h.disks.kept

def repositoryDisk (french : Node) : Disk where
  top := .directory [
    (Settings.fileName, .file (bytesOf "\x7b\"baseLocale\":\"de\"\x7d")),
    (bytesOf "app", .directory [
      (Settings.repositoryMark, .directory []),
      (bytesOf "fr.json", .file (bytesOf "\x7b\x7d")),
      (bytesOf "locales", .directory [
        (bytesOf "en.json", .file (bytesOf "\x7b\"menu\":\"Menu\"\x7d")),
        (bytesOf "fr.json", french)])])]
  cwd := [bytesOf "app"]

def strictArguments : UntranslatedArguments :=
  { UntranslatedArguments.blank with strict := true }

def linkedDisk : Disk :=
  repositoryDisk (.link (bytesOf "../.i18nrc.json"))

theorem isSound_linkedDisk : linkedDisk.IsSound := by
  decide +kernel

theorem free_linkedDisk : linkedDisk.top.at? (starterPlace linkedDisk) = none := by
  decide +kernel

theorem exists_gaps_linkedDisk :
    ∃ english french gaps,
      Locale.load (withStarter linkedDisk) (bytesOf "/app/./locales/en.json") = .ok english ∧
      Locale.load (withStarter linkedDisk) (bytesOf "/app/./locales/fr.json") = .ok french ∧
      Locale.gaps (.ofList [("en", english), ("fr", french)]) "en" = .ok gaps ∧
      gaps.size = 1 := by
  have hValue :
      ((Locale.load (withStarter linkedDisk) (bytesOf "/app/./locales/en.json")).toOption.bind
      fun english => (Json.parse starterBytes).toOption.bind
        fun root => (Locale.addEntries (bytesOf "/app/./locales/fr.json")
            (Catalog.flatten root).entries .empty).toOption.bind
          fun french => (Locale.gaps (.ofList [("en", english), ("fr", french)]) "en").toOption.map
            fun gaps => gaps.size) = some 1 := by
    rw [Settings.starterBytes_eq]
    decide +kernel
  simp only [Option.bind_eq_some_iff, Option.map_eq_some_iff, toOption_eq_some] at hValue
  rcases hValue with ⟨english, hEnglish, root, hRoot, french, hFrench, gaps, hGaps, hSize⟩
  have hExtra := hasExtra_withStarter isSound_linkedDisk free_linkedDisk
  have hPlace : linkedDisk.place? (bytesOf "/app/./locales/fr.json") =
      some (starterPlace linkedDisk) := by
    decide +kernel
  rw [← hExtra.changed.place?_eq] at hPlace
  have hFile : (withStarter linkedDisk).top.at? (starterPlace linkedDisk) =
      some (.file starterBytes) := by
    rw [hExtra.kept, free_linkedDisk]
    rfl
  have hRead : (withStarter linkedDisk).readBytes (bytesOf "/app/./locales/fr.json") =
      .ok starterBytes := by
    unfold Disk.readBytes
    rw [Disk.resolve_of_place? hPlace hFile]
    rfl
  exact ⟨english, french, gaps, hEnglish, Locale.load_of_readBytes hRead hRoot hFrench, hGaps,
    hSize⟩

def linkedProject : Project :=
  ⟨.default, some (Path.join linkedDisk.cwdPath Settings.fileName), linkedDisk.cwdPath⟩

theorem exists_audited_linkedDisk :
    ∃ result disk', TranslationGaps.Audited "now" strictArguments (withStarter linkedDisk) result
      disk' ∧ result.gaps.size = 1 := by
  have hLoad : Project.load (withStarter linkedDisk) =
      .ok linkedProject := load_withStarter isSound_linkedDisk (by decide +kernel)
  have hDirectory : TranslationGaps.directoryOf linkedProject strictArguments =
      bytesOf "/app/./locales" := by
    decide +kernel
  have hOutput : TranslationGaps.outputOf linkedProject strictArguments =
      bytesOf "/app/missing_translations.yml" := by
    decide +kernel
  have hBase : TranslationGaps.baseOf linkedProject strictArguments = "en" := rfl
  rcases exists_gaps_linkedDisk with ⟨english, french, gaps, hEnglish, hFrench, hGaps, hSize⟩
  have hFiles : Locale.files (withStarter linkedDisk) (bytesOf "/app/./locales") =
      .ok [⟨"en", bytesOf "/app/./locales/en.json"⟩, ⟨"fr", bytesOf "/app/./locales/fr.json"⟩] := by
    decide +kernel
  have hLocales := Locale.loadAll_of_pair hFiles hEnglish hFrench
  have hWritable : ((withStarter linkedDisk).write (bytesOf "/app/missing_translations.yml")
      []).toOption.isSome = true := by
    decide +kernel
  rcases Option.isSome_iff_exists.mp hWritable with ⟨empty, hEmpty⟩
  rcases (Disk.exists_write_iff (bytesOf (Report.gapsText (.at "now") gaps))).mpr
    ((Disk.exists_write_iff []).mp ⟨empty, toOption_eq_some.mp hEmpty⟩) with ⟨written, hWrite⟩
  have hReport : Report.write (withStarter linkedDisk) (bytesOf "/app/missing_translations.yml")
      (Report.gapsText (.at "now") gaps) = .ok written :=
    withContext_eq_ok.mpr hWrite
  rw [← hBase] at hGaps
  rw [← hDirectory] at hLocales
  rw [← hOutput] at hReport
  exact ⟨_, written, ⟨linkedProject, _, gaps, hLoad, rfl, hLocales, hGaps, hReport, rfl⟩, hSize⟩

end Audit
end CatalogAudit
