import CatalogAudit.Proofs.Audit.Agreement

/-!
# What a run may write

A run changes its report, its cache file, or the first settings file, and no other file. Files are
told by the places that their paths lead to. A run that fails has changed its cache file at most,
and only if everything that it reads could be read.
-/

namespace CatalogAudit

open FileTree (Disk Location)

/-!
# The settings file of the working directory
-/

namespace Settings

theorem isFileName_fileName : FileTree.IsFileName fileName := by
  decide

theorem locate_starterPath (disk : Disk) :
    disk.locate true starterPath =
      FileTree.follow FileTree.anyAccess disk.top true
        (FileTree.followLinks FileTree.anyAccess disk.top true 39) disk.cwd [fileName] := by
  have hPieces : Path.pieces starterPath = [[Path.dot], fileName] := by
    decide +kernel
  have hStart : disk.startOf starterPath = disk.cwd := rfl
  rw [Disk.locate_of_checkPath rfl, hPieces, hStart]
  exact FileTree.follow_skipped (Or.inr rfl)

theorem writeStarter_of_gone {disk disk' : Disk} (hGone : ¬disk.top.IsDirectoryAt disk.cwd) :
    writeStarter disk ≠ .ok disk' := by
  intro h
  unfold writeStarter at h
  split at h
  · cases h
  · have hNone : disk.top.at? (disk.cwd ++ [fileName]) = none := by
      cases hNode : disk.top.at? (disk.cwd ++ [fileName]) with
      | none => rfl
      | some node => exact absurd (FileTree.Node.at?_of_at?_snoc hNode) hGone
    have hLocate : disk.locate true starterPath = .ok (.absent disk.cwd fileName) := by
      rw [locate_starterPath, FileTree.follow_entry isFileName_fileName.toIsEntryName rfl, hNone]
      rfl
    rcases Disk.write_eq_ok (withContext_eq_ok.mp h) with ⟨directory, name, hDirectory, hEnds, _⟩
    rw [hLocate] at hEnds
    rw [← (FileTree.endsAt_absent hEnds).1] at hDirectory
    exact hGone hDirectory

end Settings

namespace Audit

open CommandLine (Command UnusedArguments UntranslatedArguments)

/-!
# Files that are written
-/

inductive IsReport (disk : Disk) : Command → Path → Prop
  | unused {project : Project} {arguments : UnusedArguments}
      (hProject : Project.load disk = .ok project) :
      IsReport disk (.unused arguments) (UnusedKeys.outputOf project arguments)
  | untranslated {project : Project} {arguments : UntranslatedArguments}
      (hProject : Project.load disk = .ok project) :
      IsReport disk (.untranslated arguments) (TranslationGaps.outputOf project arguments)

inductive IsCache (disk : Disk) : Command → Path → Prop
  | unused {project : Project} {arguments : UnusedArguments}
      (hProject : Project.load disk = .ok project)
      (hCached : UnusedKeys.isCached project arguments = true) :
      IsCache disk (.unused arguments) (UnusedKeys.cachePathOf project arguments)

/-- The command makes a settings file, which is not there yet. -/
inductive IsStarter (disk : Disk) : Command → Path → Prop
  | init (hNew : disk.exists? Settings.starterPath = false) :
      IsStarter disk .init Settings.starterPath

def MayWrite (disk : Disk) (command : Command) (path : Path) : Prop :=
  IsReport disk command path ∨ IsCache disk command path ∨ IsStarter disk command path

/-- Some path of these leads to the place. -/
def LeadsTo (disk : Disk) (paths : Path → Prop) (place : Location) : Prop :=
  ∃ path, paths path ∧ disk.place? path = some place

/-- What the run leaves alone. -/
structure IsConfined (disk : Disk) (command : Command) (outcome : Outcome) : Prop where
  always : disk.AgreesOutside (LeadsTo disk (MayWrite disk command)) outcome.disk
  failed : outcome.status.code = 2 →
    disk.AgreesOutside (LeadsTo disk (IsCache disk command)) outcome.disk
  beforeReport : ∀ failure, outcome.result = .error failure → failure.advice ≠ some .report →
    outcome.disk = disk
  unread : ∀ arguments, command = .unused arguments →
    (∀ project flat files, ¬UnusedKeys.Sees disk arguments project flat files) →
      outcome.status.code = 2 ∧ outcome.disk = disk
  uncached : ∀ arguments project, command = .unused arguments →
    Project.load disk = .ok project →
    (arguments.noCache = true ∨ project.settings.cache = false) →
    (∀ place, disk.place? (UnusedKeys.cachePathOf project arguments) = some place →
      disk.place? (UnusedKeys.outputOf project arguments) ≠ some place) →
    outcome.disk.outline? (UnusedKeys.cachePathOf project arguments) =
      disk.outline? (UnusedKeys.cachePathOf project arguments)

/-!
# Changes
-/

theorem changedIn_of_write {disk disk' : Disk} (hSound : disk.IsSound) {paths : Path → Prop}
    {path : Path} (hPath : paths path) {content : Utf8.Bytes}
    (h : disk.write path content = .ok disk') : disk.ChangedIn (LeadsTo disk paths) disk' := by
  rcases Disk.changedAt_of_write hSound h with ⟨place, hPlace, hChanged, _⟩
  exact .of_changedAt hChanged ⟨path, hPath, hPlace⟩

namespace UnusedKeys

variable {time : String} {arguments : UnusedArguments} {disk disk' saved : Disk}
  {project : Project} {flat : Catalog.FlatCatalog} {files : List SourceFile}

theorem changedIn_of_saves (hSound : disk.IsSound) (hSees : Sees disk arguments project flat files)
    (h : Saves files (searched disk arguments project flat files).cache disk saved) :
    disk.ChangedIn (LeadsTo disk (IsCache disk (.unused arguments))) saved := by
  cases hCached : isCached project arguments with
  | false =>
      rw [searched_of_not_cached hCached, Usage.cache_run_none] at h
      cases h
      exact .refl disk _
  | true =>
      refine (changedIn_of_puts hSound (saves_iff_puts.mp h)).1.mono ?_
      intro place hPlace
      exact ⟨_, .unused hSees.project_eq hCached, hPlace⟩

theorem changedIn_of_audited (hSound : disk.IsSound) {result : UnusedResult}
    (h : Audited time arguments disk result disk') :
    disk.ChangedIn (LeadsTo disk (MayWrite disk (.unused arguments))) disk' := by
  rcases h with ⟨project, flat, files, saved, hSees, hSaves, hWrite, _⟩
  have hSaved := changedIn_of_saves hSound hSees hSaves
  rcases Disk.changedAt_of_write (hSaved.isSound hSound) (Report.write_eq_ok.mp hWrite) with
    ⟨place, hPlace, hChanged, _⟩
  apply Disk.ChangedIn.trans (hSaved.mono _) (.of_changedAt hChanged _)
  · intro other hOther
    rcases hOther with ⟨path, hCache, hLeads⟩
    exact ⟨path, Or.inr (Or.inl hCache), hLeads⟩
  · rw [hSaved.place?_eq] at hPlace
    exact ⟨_, Or.inl (.unused hSees.project_eq), hPlace⟩

/-- Only if the report is what cannot be written something has changed before, and that is saved. -/
theorem Fails.disk_cases {failure : Failure} (h : Fails time arguments disk failure disk') :
    disk' = disk ∨ failure.advice = some .report ∧ ∃ project flat files,
      Sees disk arguments project flat files ∧
        Saves files (searched disk arguments project flat files).cache disk disk' := by
  cases h with
  | project _ => exact Or.inl rfl
  | catalogPath _ _ => exact Or.inl rfl
  | catalog _ _ _ => exact Or.inl rfl
  | scan _ _ => exact Or.inl rfl
  | sources _ _ _ => exact Or.inl rfl
  | cache _ _ _ => exact Or.inl rfl
  | report hSees hSaves _ => exact Or.inr ⟨rfl, _, _, _, hSees, hSaves⟩

end UnusedKeys

theorem changedIn_of_writeStarter {disk disk' : Disk} (hSound : disk.IsSound)
    (h : Settings.writeStarter disk = .ok disk') :
    disk.ChangedIn (LeadsTo disk (MayWrite disk .init)) disk' := by
  unfold Settings.writeStarter at h
  split at h
  case isTrue => cases h
  case isFalse hNew =>
    have hStarter : MayWrite disk .init Settings.starterPath :=
      Or.inr (Or.inr (.init (Bool.eq_false_iff.mpr hNew)))
    exact changedIn_of_write hSound hStarter (withContext_eq_ok.mp h)

/-!
# Runs
-/

section Runs

variable {time : String} {disk : Disk} {command : Command}

theorem changedIn_of_success (hSound : disk.IsSound) {summary : Summary}
    (h : (run time disk command).result = .ok summary) :
    disk.ChangedIn (LeadsTo disk (MayWrite disk command)) (run time disk command).disk := by
  cases command with
  | unused arguments =>
      rcases UnusedKeys.exists_audited_of_result h with ⟨result, hAudited⟩
      exact UnusedKeys.changedIn_of_audited hSound hAudited
  | untranslated arguments =>
      rcases TranslationGaps.exists_audited_of_result h with
        ⟨result, project, _, _, hProject, _, _, _, hWrite, _⟩
      exact changedIn_of_write hSound (Or.inl (.untranslated hProject))
        (Report.write_eq_ok.mp hWrite)
  | init =>
      have hLeads := leads_perform_iff.mpr ⟨h, rfl⟩
      rcases Work.leads_change_bind.mp hLeads with ⟨changed, hChanged, hPure⟩
      rw [(Work.leads_pure.mp hPure).2]
      exact changedIn_of_writeStarter hSound hChanged

theorem disk_cases_of_failure {failure : Failure}
    (h : (run time disk command).result = .error failure) :
    (run time disk command).disk = disk ∨ failure.advice = some .report ∧
      ∃ arguments project flat files, command = .unused arguments ∧
        UnusedKeys.Sees disk arguments project flat files ∧
        UnusedKeys.Saves files (UnusedKeys.searched disk arguments project flat files).cache disk
          (run time disk command).disk := by
  cases command with
  | unused arguments =>
      rcases (UnusedKeys.fails_of_result h).disk_cases with hSame | ⟨hAdvice, hSaved⟩
      · exact Or.inl hSame
      · exact Or.inr ⟨hAdvice, arguments, hSaved.imp fun _ => Exists.imp fun _ =>
          Exists.imp fun _ h => ⟨rfl, h⟩⟩
  | untranslated arguments => exact Or.inl (TranslationGaps.disk_eq_of_result h)
  | init =>
      have hStops := stops_perform_iff.mpr ⟨h, rfl⟩
      rcases Work.stops_change_bind.mp hStops with ⟨_, _, _, hSame⟩ | ⟨_, _, hPure⟩
      · exact Or.inl hSame
      · exact absurd hPure Work.not_stops_pure

theorem changedIn_of_failure (hSound : disk.IsSound) {failure : Failure}
    (h : (run time disk command).result = .error failure) :
    disk.ChangedIn (LeadsTo disk (IsCache disk command)) (run time disk command).disk := by
  rcases disk_cases_of_failure h with
    hSame | ⟨_, arguments, project, flat, files, rfl, hSees, hSaves⟩
  · rw [hSame]
    exact .refl disk _
  · exact UnusedKeys.changedIn_of_saves hSound hSees hSaves

theorem changedIn_run (time : String) (hSound : disk.IsSound) (command : Command) :
    disk.ChangedIn (LeadsTo disk (MayWrite disk command)) (run time disk command).disk := by
  cases hResult : (run time disk command).result with
  | ok summary => exact changedIn_of_success hSound hResult
  | error failure =>
      refine (changedIn_of_failure hSound hResult).mono ?_
      intro place hPlace
      rcases hPlace with ⟨path, hCache, hLeads⟩
      exact ⟨path, Or.inr (Or.inl hCache), hLeads⟩

theorem not_leadsTo_of_not_cached {arguments : UnusedArguments} {project : Project}
    (hProject : Project.load disk = .ok project)
    (hOff : UnusedKeys.isCached project arguments = false) {place : Location}
    (hApart : disk.place? (UnusedKeys.outputOf project arguments) ≠ some place) :
    ¬LeadsTo disk (MayWrite disk (.unused arguments)) place := by
  intro h
  rcases h with ⟨path, hReport | hCache | hStarter, hPlace⟩
  · cases hReport with
    | unused hProject' =>
        cases hProject.symm.trans hProject'
        exact hApart hPlace
  · cases hCache with
    | unused hProject' hCached =>
        cases hProject.symm.trans hProject'
        rw [hOff] at hCached
        cases hCached
  · cases hStarter

theorem run_of_gone (time : String) (hGone : ¬disk.top.IsDirectoryAt disk.cwd)
    (command : Command) :
    (run time disk command).status.code = 2 ∧ (run time disk command).disk = disk := by
  cases hResult : (run time disk command).result with
  | ok summary =>
      exfalso
      cases command with
      | unused arguments =>
          rcases UnusedKeys.exists_audited_of_result hResult with ⟨_, _, _, _, _, hSees, _⟩
          exact hGone (Project.load_eq_ok.mp hSees.project_eq).1
      | untranslated arguments =>
          rcases TranslationGaps.exists_audited_of_result hResult with ⟨_, _, _, _, hProject, _⟩
          exact hGone (Project.load_eq_ok.mp hProject).1
      | init =>
          have hLeads := leads_perform_iff.mpr ⟨hResult, rfl⟩
          rcases Work.leads_change_bind.mp hLeads with ⟨_, hChanged, _⟩
          exact Settings.writeStarter_of_gone hGone hChanged
  | error failure =>
      constructor
      · rw [status_run, hResult]
        rfl
      · rcases disk_cases_of_failure hResult with hSame | ⟨_, _, _, _, _, _, hSees, _⟩
        · exact hSame
        · exact absurd (Project.load_eq_ok.mp hSees.project_eq).1 hGone

theorem isConfined_of_gone (time : String) (hGone : ¬disk.top.IsDirectoryAt disk.cwd)
    (command : Command) : IsConfined disk command (run time disk command) := by
  rcases run_of_gone time hGone command with ⟨hCode, hSame⟩
  constructor
  case always =>
    rw [hSame]
    exact (Disk.ChangedIn.refl disk _).agreesOutside
  case failed =>
    intro _
    rw [hSame]
    exact (Disk.ChangedIn.refl disk _).agreesOutside
  case beforeReport => exact fun _ _ _ => hSame
  case unread => exact fun _ _ _ => ⟨hCode, hSame⟩
  case uncached =>
    intro _ _ _ _ _ _
    rw [hSame]

theorem isConfined_of_isSound (time : String) (hSound : disk.IsSound) (command : Command) :
    IsConfined disk command (run time disk command) := by
  constructor
  case always => exact (changedIn_run time hSound command).agreesOutside
  case failed =>
    intro hCode
    rcases exists_failure_of_status (code_eq_two_iff.mp hCode) with ⟨failure, hFailure⟩
    exact (changedIn_of_failure hSound hFailure).agreesOutside
  case beforeReport =>
    intro failure hFailure hAdvice
    rcases disk_cases_of_failure hFailure with hSame | ⟨hReport, _⟩
    · exact hSame
    · exact absurd hReport hAdvice
  case unread =>
    intro arguments hCommand hUnread
    subst hCommand
    cases hResult : (run time disk (.unused arguments)).result with
    | ok summary =>
        rcases UnusedKeys.exists_audited_of_result hResult with ⟨_, _, _, _, _, hSees, _⟩
        exact absurd hSees (hUnread _ _ _)
    | error failure =>
        refine ⟨?_, ?_⟩
        · rw [status_run, hResult]
          rfl
        · rcases disk_cases_of_failure hResult with hSame | ⟨_, _, _, _, _, hCommand, hSees, _⟩
          · exact hSame
          · cases hCommand
            exact absurd hSees (hUnread _ _ _)
  case uncached =>
    intro arguments project hCommand hProject hOff hApart
    subst hCommand
    have hNot : UnusedKeys.isCached project arguments = false := by
      unfold UnusedKeys.isCached
      rcases hOff with hNoCache | hCache
      · rw [hNoCache, Bool.not_true, Bool.and_false]
      · rw [hCache, Bool.false_and]
    -- Nothing changes but the report, and the path that is meant does not lead to it.
    apply (changedIn_run time hSound (.unused arguments)).outline?_eq
    intro place hPlace
    exact not_leadsTo_of_not_cached hProject hNot (hApart place hPlace)

/-- A command writes nothing but its own files, and next to nothing if it fails. -/
theorem isConfined_run (time : String) (hTop : disk.top.IsSound) (command : Command) :
    IsConfined disk command (run time disk command) := by
  by_cases hCwd : disk.top.IsDirectoryAt disk.cwd
  · exact isConfined_of_isSound time ⟨hTop, hCwd⟩ command
  · exact isConfined_of_gone time hCwd command

end Runs

def blockedArguments : UnusedArguments :=
  { smallArguments with output := some (bytesOf "locales") }

theorem isConfined_run_smallDisk :
    IsConfined smallDisk (.unused blockedArguments)
        (run "now" smallDisk (.unused blockedArguments)) ∧
      (run "now" smallDisk (.unused blockedArguments)).status.code = 2 ∧
      smallDisk.exists? (bytesOf "/.i18n-validator.json") = false ∧
      (run "now" smallDisk (.unused blockedArguments)).disk.exists?
        (bytesOf "/.i18n-validator.json") = true := by
  refine ⟨isConfined_run "now" isSound_smallDisk.top _, ?_⟩
  decide +kernel

end Audit
end CatalogAudit
