import CatalogAudit.Proofs.Audit.Repeat
import CatalogAudit.Proofs.Audit.TranslationGaps

/-!
# The other report among the sources

The audit of untranslated keys writes a report, too, and the audit of unused keys does not exclude
it. A new report that is not scanned makes no difference to the unused keys. But where a pattern
matches it, the keys that it names count as used.
-/

namespace CatalogAudit

open FileTree (Disk Location)

/-!
# What is there already
-/

namespace Settings

theorem exists?_of_findIn {disk : Disk} {directories : List Path} {path : Path}
    (h : findIn disk directories = some path) : disk.exists? path = true := by
  induction directories with
  | nil => cases h
  | cons directory above ih =>
      unfold findIn at h
      split at h
      · rename_i hThere
        cases h
        exact hThere
      · split at h
        · cases h
        · exact ih h

end Settings

theorem Project.exists?_file {disk : Disk} {project : Project} (h : load disk = .ok project)
    {path : Path} (hFile : project.file = some path) : disk.exists? path = true := by
  have hFrom := (load_eq_ok.mp h).2
  unfold loadFrom at hFrom
  split at hFrom
  · rename_i found hFound
    rcases bind_eq_ok.mp hFrom with ⟨settings, _, hProject⟩
    cases hProject
    cases hFile
    exact Settings.exists?_of_findIn hFound
  · cases hFrom
    cases hFile

theorem Catalog.exists?_of_load {disk : Disk} {path : Path} {flat : FlatCatalog}
    (h : load disk path = .ok flat) : disk.exists? path = true := by
  rcases bind_eq_ok.mp h with ⟨text, hText, _⟩
  exact Disk.exists?_of_readText (withContext_eq_ok.mp hText)

namespace Audit
namespace UnusedKeys

open Catalog (FlatCatalog)
open CommandLine (UnusedArguments UntranslatedArguments)
open SourceScan (Misses)

/-!
# New files
-/

/-- The audit does not come across a new file at this place. -/
structure Overlooks (disk : Disk) (project : Project) (arguments : UnusedArguments)
    (place : Location) : Prop where
  asked : ∀ asked ∈ settingsPlaces disk.cwdPath, disk.place? asked.path ≠ some place
  ignoreList : ∀ path, ignoreListPath? project arguments = some path →
    disk.place? path ≠ some place
  misses : Misses disk (scanRequest project arguments) place

section NewReport

variable {time time' timeBetween : String} {disk disk' : Disk} {arguments : UnusedArguments}
  {project : Project}

theorem isUnread_of_new {places : Location → Prop} (h : disk.ChangedIn places disk')
    {flat : FlatCatalog} {files : List SourceFile}
    (hSees : Sees disk' arguments project flat files) {path : Path}
    (hNew : disk'.exists? path = false) {place : Location} (hPlace : disk'.place? path = some place)
    (hOverlooks : Overlooks disk project arguments place) :
    IsUnread disk project arguments place := by
  have hOther : ∀ {other : Path}, disk'.exists? other = true →
      disk.place? other ≠ some place := by
    intro other hThere
    rw [← h.place?_eq]
    exact Disk.place?_ne_of_exists? hThere hNew hPlace
  constructor
  case asked => exact fun asked hAsked hSame => absurd hSame (hOverlooks.asked asked hAsked)
  case settings => exact fun _ hFile => hOther (Project.exists?_file hSees.project_eq hFile)
  case catalog =>
    intro catalog hCatalog
    rcases hSees.catalog with ⟨catalog', hCatalog', hLoad⟩
    cases hCatalog.symm.trans hCatalog'
    exact hOther (Catalog.exists?_of_load hLoad)
  case ignoreList => exact hOverlooks.ignoreList

/-!
# Around an audit of untranslated keys
-/

/--
An audit of unused keys tells the same before and after an audit of untranslated keys whose report
is new, unless it comes across that report.
-/
theorem repeats_run_around_gaps (hSound : disk.IsSound)
    (hProject : Project.load disk = .ok project)
    (hApart : IsApart disk project arguments)
    (hMissed : MissesOwnFiles disk project arguments)
    (hNames : isCached project arguments = true → NamesTellFiles disk project arguments)
    (hRun : (run time disk (.unused arguments)).status ≠ .failure)
    {gapsArguments : UntranslatedArguments}
    (hGaps : (run timeBetween (run time disk (.unused arguments)).disk
      (.untranslated gapsArguments)).status ≠ .failure)
    (hNew : (run time disk (.unused arguments)).disk.exists?
      (TranslationGaps.outputOf project gapsArguments) = false)
    (hOverlooks : ∀ place,
      disk.place? (TranslationGaps.outputOf project gapsArguments) = some place →
        Overlooks disk project arguments place) (time' : String) :
    Repeats project arguments time time' (run time disk (.unused arguments))
      (run time' (run timeBetween (run time disk (.unused arguments)).disk
        (.untranslated gapsArguments)).disk (.unused arguments)) := by
  rcases exists_audited_of_status hRun with ⟨result, hAudited⟩
  rcases exists_sees_of_audited hSound hProject hApart hMissed hAudited with
    ⟨flat, files, text?, hText, hFirst, hSees, hLeft⟩
  rcases TranslationGaps.exists_audited_of_status hGaps with
    ⟨_, project', _, _, hProject', _, _, _, hWrite, _⟩
  cases hProject'.symm.trans hSees.project_eq
  rcases Disk.changedAt_of_write (hFirst.isSound hSound) (Report.write_eq_ok.mp hWrite) with
    ⟨place, hPlace, hChanged, _⟩
  have hOverlooked := hOverlooks place ((hFirst.place?_eq _).symm.trans hPlace)
  -- The new report is one more place that nothing of the audit depends on.
  have hIdle : IsIdle disk project arguments place := by
    constructor
    case unread => exact isUnread_of_new hFirst hSees hNew hPlace hOverlooked
    case misses => exact hOverlooked.misses
    case notCache =>
      intro hCached
      rw [hCached] at hText
      rcases Option.isSome_iff_exists.mp hText with ⟨text, hSome⟩
      have hCache := Disk.exists?_of_readBytes (hLeft.cache text hSome)
      rw [← hFirst.place?_eq]
      exact Disk.place?_ne_of_exists? hCache hNew hPlace
  exact (repeats_of_changedIn hSound hProject hApart hMissed hNames hRun
    (.of_changedAt hChanged hIdle) time').1

end NewReport

def gapsDisk (pattern : String) : Disk where
  top := .directory [
    (Settings.fileName,
      .file (bytesOf ("\x7b\"sourcePatterns\":[\"" ++ pattern ++ "\"]\x7d"))),
    (bytesOf "locales", .directory [
      (bytesOf "en.json", .file (bytesOf "\x7b\"menu\":\"Menu\"\x7d")),
      (bytesOf "fr.json", .file (bytesOf "\x7b\x7d"))])]
  cwd := []

def gapsProject (pattern : String) : Project where
  settings := { Settings.default with sourcePatterns := [pattern] }
  file := some (bytesOf "/.i18nrc.json")
  directory := bytesOf "/"

def enArguments : UnusedArguments :=
  { UnusedArguments.blank with
    localePath := some (bytesOf "locales/en.json"), noCache := true, strict := true }

theorem isSound_gapsDisk : (gapsDisk "*.ts").IsSound := by
  decide +kernel

theorem overlooks_gapsDisk :
    Overlooks (gapsDisk "*.ts") (gapsProject "*.ts") enArguments
      [bytesOf "missing_translations.yml"] := by
  constructor
  case asked => decide +kernel
  case ignoreList =>
    intro path hPath
    cases hPath
  case misses => decide +kernel

theorem repeats_run_around_gaps_gapsDisk :
    Repeats (gapsProject "*.ts") enArguments "before" "after"
      (run "before" (gapsDisk "*.ts") (.unused enArguments))
      (run "after" (run "between" (run "before" (gapsDisk "*.ts") (.unused enArguments)).disk
        (.untranslated .blank)).disk (.unused enArguments)) := by
  apply repeats_run_around_gaps isSound_gapsDisk (by decide +kernel) (by decide +kernel)
    (by decide +kernel) (fun hCached => by cases hCached) (by decide +kernel) (by decide +kernel)
    (by decide +kernel) _ "after"
  intro place hPlace
  have hReport : (gapsDisk "*.ts").place? (bytesOf "/missing_translations.yml") =
      some [bytesOf "missing_translations.yml"] := by
    decide +kernel
  cases hReport.symm.trans hPlace
  exact overlooks_gapsDisk

/-- Where the pattern matches the new report, the key that it names is not unused any more. -/
theorem status_run_around_scanned_gaps :
    let first := run "before" (gapsDisk "*.yml") (.unused enArguments)
    let gaps := run "between" first.disk (.untranslated .blank)
    first.status = .findings ∧ gaps.status = .success ∧
      first.disk.exists? (TranslationGaps.outputOf (gapsProject "*.yml") .blank) = false ∧
      gaps.disk.exists? (TranslationGaps.outputOf (gapsProject "*.yml") .blank) = true ∧
      (run "after" gaps.disk (.unused enArguments)).status = .success := by
  decide +kernel

end UnusedKeys
end Audit
end CatalogAudit
