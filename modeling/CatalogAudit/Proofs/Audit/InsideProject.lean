import CatalogAudit.Console.Lines
import CatalogAudit.Proofs.Audit.WorkingDirectory
import Mathlib.Data.List.Infix

/-!
# Inside a project

The search for the settings goes up from the working directory. From all directories below a
settings file it comes to that file, if nothing in between ends it, and then it does not matter in
which of them a command is run.
-/

namespace CatalogAudit
namespace Audit

open CommandLine (Command UnusedArguments UntranslatedArguments)
open FileTree (Disk IsFileName Location pathTo)

/-!
# Directories below a settings file
-/

theorem isFileName_settings : ∀ name ∈ [Settings.fileName, Settings.repositoryMark],
    IsFileName name := by
  decide

theorem findIn_below {disk : Disk} {directory below : Location}
    (hNames : ∀ name ∈ directory ++ below, IsFileName name)
    (hBetween : ∀ between, between ≠ [] → between <+: below →
      ∀ name ∈ [Settings.fileName, Settings.repositoryMark],
        disk.exists? (Path.join (pathTo (directory ++ between)) name) = false) :
    Settings.findIn disk (Path.ancestors (pathTo (directory ++ below))) =
      Settings.findIn disk (Path.ancestors (pathTo directory)) := by
  induction below using List.reverseRecOn with
  | nil => rw [List.append_nil]
  | append_singleton above name ih =>
      rw [← List.append_assoc] at hNames
      have hAbove : ∀ other ∈ directory ++ above, IsFileName other := fun other hOther =>
        hNames other (List.mem_append_left [name] hOther)
      have hName := hNames name (List.mem_append_right _ (List.mem_singleton_self name))
      have hHere := hBetween (above ++ [name]) (List.append_ne_nil_of_right_ne_nil above
        (List.cons_ne_nil name [])) (List.prefix_refl _)
      have hFile := hHere Settings.fileName (by simp)
      have hMark := hHere Settings.repositoryMark (by simp)
      rw [← List.append_assoc] at hFile hMark ⊢
      rw [FileTree.ancestors_pathTo_snoc hAbove hName, Settings.findIn, hFile, hMark]
      simp only [Bool.false_eq_true, if_false]
      apply ih hAbove
      intro between hNonempty hPrefix
      exact hBetween between hNonempty (hPrefix.trans (List.prefix_append above [name]))

theorem exists_ancestors_eq_cons (path : Path) :
    ∃ above, Path.ancestors path = path :: above := by
  unfold Path.ancestors
  split
  · exact ⟨_, rfl⟩
  · exact ⟨[], rfl⟩

theorem find?_of_exists? {disk : Disk} {start : Path}
    (h : disk.exists? (Path.join start Settings.fileName) = true) :
    Settings.find? disk start = some (Path.join start Settings.fileName) := by
  rcases exists_ancestors_eq_cons start with ⟨above, hAncestors⟩
  unfold Settings.find?
  rw [hAncestors, Settings.findIn, if_pos h]

theorem loadFrom_of_find? {disk : Disk} {start : Path} {location : Location}
    (hNames : ∀ name ∈ location, IsFileName name)
    (h : Settings.find? disk start = some (Path.join (pathTo location) Settings.fileName)) :
    Project.loadFrom disk start =
      (Settings.read disk (Path.join (pathTo location) Settings.fileName)).map fun settings =>
        ⟨settings, some (Path.join (pathTo location) Settings.fileName), pathTo location⟩ := by
  have hName := isFileName_settings Settings.fileName (by simp)
  have hParent := FileTree.parent?_pathTo hNames hName
  rw [← FileTree.join_pathTo hNames hName] at hParent
  unfold Project.loadFrom
  simp only [h, hParent, Option.getD_some]
  cases Settings.read disk (Path.join (pathTo location) Settings.fileName) with
  | ok settings => rfl
  | error fault => rfl

theorem sharesProject_below {disk : Disk} {below : Location}
    (hSound : (disk.movedTo (disk.cwd ++ below)).IsSound)
    (hFile : disk.exists? (Path.join disk.cwdPath Settings.fileName) = true)
    (hBetween : ∀ between, between ≠ [] → between <+: below →
      ∀ name ∈ [Settings.fileName, Settings.repositoryMark],
        disk.exists? (Path.join (pathTo (disk.cwd ++ between)) name) = false) :
    SharesProject disk (disk.cwd ++ below) := by
  have hNames : ∀ name ∈ disk.cwd ++ below, IsFileName name := by
    rcases hSound.cwd with ⟨entries, hEntries⟩
    exact hSound.top.isFileName_of_mem hEntries
  have hHere : ∀ name ∈ disk.cwd, IsFileName name := fun name hName =>
    hNames name (List.mem_append_left below hName)
  have hAbsolute : Path.isAbsolute (Path.join (pathTo disk.cwd) Settings.fileName) = true :=
    Path.isAbsolute_join_of_isAbsolute (FileTree.isAbsolute_pathTo disk.cwd) Settings.fileName
  -- The file is found at once from its own directory, and from below by passing what is between.
  have hFound : Settings.find? disk disk.cwdPath =
      some (Path.join (pathTo disk.cwd) Settings.fileName) := find?_of_exists? hFile
  have hFoundBelow : Settings.find? (disk.movedTo (disk.cwd ++ below))
      (disk.movedTo (disk.cwd ++ below)).cwdPath =
        some (Path.join (pathTo disk.cwd) Settings.fileName) := by
    rw [← hFound]
    show Settings.findIn (disk.movedTo (disk.cwd ++ below))
        (Path.ancestors (pathTo (disk.cwd ++ below))) =
      Settings.findIn disk (Path.ancestors (pathTo disk.cwd))
    rw [Settings.findIn_movedTo fun _ => FileTree.isAbsolute_of_mem_ancestors hNames]
    exact findIn_below hNames hBetween
  have hBelow : disk.top.IsDirectoryAt (disk.cwd ++ below) := hSound.cwd
  have hDirectory : disk.top.IsDirectoryAt disk.cwd := by
    rcases hBelow with ⟨entries, hEntries⟩
    cases below with
    | nil => exact ⟨entries, by rwa [List.append_nil] at hEntries⟩
    | cons name names =>
        exact FileTree.Node.isDirectoryAt_of_append (List.cons_ne_nil name names) hEntries
  have hLoad := loadFrom_of_find? hHere hFound
  have hLoadBelow := loadFrom_of_find? hHere hFoundBelow
  rw [← Project.load_eq_loadFrom hDirectory] at hLoad
  rw [← Project.load_eq_loadFrom hSound.cwd] at hLoadBelow
  constructor
  case isDirectory => exact hDirectory
  case isDirectory' => exact hBelow
  case file => rw [hFoundBelow, hFound]
  case load =>
    have hText := FileTree.Disk.readText_movedTo hAbsolute disk (disk.cwd ++ below)
    rw [hLoad, hLoadBelow, Settings.read_eq_of_readText hText]
  case fileAbsolute =>
    intro path hPath
    cases hFound.symm.trans hPath
    exact hAbsolute
  case directoryAbsolute =>
    intro project hProject
    rw [hLoad] at hProject
    cases hRead : Settings.read disk (Path.join (pathTo disk.cwd) Settings.fileName) with
    | error fault =>
        rw [hRead] at hProject
        cases hProject
    | ok settings =>
        rw [hRead] at hProject
        cases hProject
        exact FileTree.isAbsolute_pathTo disk.cwd

/-!
# The same run
-/

theorem SharesProject.mayWrite_of_movedTo {disk : Disk} {cwd : Location}
    (h : SharesProject disk cwd) {command : Command} (hCommand : command ≠ .init) {path : Path}
    (hWrite : MayWrite (disk.movedTo cwd) command path) : MayWrite disk command path := by
  rcases hWrite with hReport | hCache | hStarter
  · cases hReport with
    | unused hProject => exact Or.inl (.unused (h.load.symm.trans hProject))
    | untranslated hProject => exact Or.inl (.untranslated (h.load.symm.trans hProject))
  · cases hCache with
    | unused hProject hCached =>
        exact Or.inr (Or.inl (.unused (h.load.symm.trans hProject) hCached))
  · cases hStarter with
    | init hNew => exact absurd rfl hCommand

theorem SharesProject.isAbsolute_of_mayWrite {disk : Disk} {cwd : Location}
    (h : SharesProject disk cwd) {command : Command} (hCommand : command ≠ .init)
    (hGiven : ∀ path ∈ givenPaths command, Path.isAbsolute path = true) {path : Path}
    (hWrite : MayWrite disk command path) : Path.isAbsolute path = true := by
  rcases hWrite with hReport | hCache | hStarter
  · cases hReport with
    | unused hProject =>
        exact UnusedKeys.isAbsolute_outputOf hGiven (h.directoryAbsolute _ hProject)
    | untranslated hProject =>
        exact TranslationGaps.isAbsolute_outputOf hGiven (h.directoryAbsolute _ hProject)
  · cases hCache with
    | unused hProject hCached =>
        exact UnusedKeys.isAbsolute_cachePathOf hGiven (h.directoryAbsolute _ hProject)
  · cases hStarter with
    | init hNew => exact absurd rfl hCommand

/-- From either disk the command reads and writes the same files, and the runs show the same. -/
structure SameRun (command : Command) (disk other : Disk) (first second : Outcome) : Prop where
  status : second.status = first.status
  outputLines : Console.outputLines second.result = Console.outputLines first.result
  errorLines : ∀ shows, Console.errorLines shows second = Console.errorLines shows first
  filesRead : filesRead other command = filesRead disk command
  mayWrite : ∀ path, MayWrite other command path ↔ MayWrite disk command path
  absolute : ∀ path, path ∈ Audit.filesRead disk command ∨ MayWrite disk command path →
    Path.isAbsolute path = true
  contents : ∀ path, Path.isAbsolute path = true →
    second.disk.readBytes path = first.disk.readBytes path
  top : second.disk.top = first.disk.top

def nestedDisk : Disk where
  top := .directory [(bytesOf "app", .directory [
    (Settings.fileName,
      .file (bytesOf "\x7b\"localePath\":\"en.json\",\"sourceRoot\":\"src\"\x7d")),
    (bytesOf "en.json",
      .file (bytesOf "\x7b\"menu\":\x7b\"open\":\"Open\",\"close\":\"Close\"\x7d\x7d")),
    (bytesOf "src", .directory [
      (bytesOf "a.ts", .file (bytesOf "t('menu.open')")),
      (bytesOf "deep", .directory [])])])]
  cwd := [bytesOf "app"]

def nestedBelow : Location :=
  [bytesOf "src", bytesOf "deep"]

def nestedArguments : UnusedArguments :=
  { UnusedArguments.blank with output := some (bytesOf "/app/out.yml"), strict := true }

end Audit
end CatalogAudit
