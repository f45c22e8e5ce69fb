import CatalogAudit.Proofs.Audit.Confinement

/-!
# How an audit ends that has read everything

What an audit of unused keys sees is told by the disk. Once it has seen everything there are three
ways for it to end, and before that it fails without a change.
-/

namespace CatalogAudit
namespace Audit
namespace UnusedKeys

open Catalog (FlatCatalog)
open CommandLine (UnusedArguments)
open FileTree (Disk)

/-- The report is written, or cannot be written, or the cache cannot even be saved before it. -/
inductive Finishes (time : String) (arguments : UnusedArguments) (disk : Disk) (project : Project)
    (flat : FlatCatalog) (files : List SourceFile) : Except Failure Summary → Disk → Prop
  | done {saved written : Disk}
      (hPuts : Puts (savedText? disk arguments project flat files)
        (cachePathOf project arguments) disk saved)
      (hWrite : Report.write saved (outputOf project arguments)
        (Report.unusedText (.at time) (searched disk arguments project flat files).findings
          flat.warnings) = .ok written) :
      Finishes time arguments disk project flat files
        (.ok (.unused ⟨(searched disk arguments project flat files).findings, flat.warnings,
          files.length, outputOf project arguments⟩)) written
  | unreported {saved : Disk} {failure : Failure}
      (hPuts : Puts (savedText? disk arguments project flat files)
        (cachePathOf project arguments) disk saved)
      (hWrite : ∀ content, ¬∃ written,
        saved.write (outputOf project arguments) content = .ok written) :
      Finishes time arguments disk project flat files (.error failure) saved
  | unsaved {failure : Failure}
      (hPuts : ¬∃ saved, Puts (savedText? disk arguments project flat files)
        (cachePathOf project arguments) disk saved) :
      Finishes time arguments disk project flat files (.error failure) disk

section Ends

variable {time : String} {arguments : UnusedArguments} {disk disk' : Disk} {project : Project}
  {flat : FlatCatalog} {files : List SourceFile}

theorem Sees.unique {project' : Project} {flat' : FlatCatalog} {files' : List SourceFile}
    (h : Sees disk arguments project flat files) (h' : Sees disk arguments project' flat' files') :
    project' = project ∧ flat' = flat ∧ files' = files := by
  cases h.project_eq.symm.trans h'.project_eq
  rcases h.catalog with ⟨path, hPath, hFlat⟩
  rcases h'.catalog with ⟨path', hPath', hFlat'⟩
  cases hPath.symm.trans hPath'
  cases hFlat.symm.trans hFlat'
  rcases h.sources with ⟨paths, hFind, hLoad⟩
  rcases h'.sources with ⟨paths', hFind', hLoad'⟩
  cases hFind.symm.trans hFind'
  cases hLoad.symm.trans hLoad'
  exact ⟨rfl, rfl, rfl⟩

theorem Fails.finishes {failure : Failure} (h : Fails time arguments disk failure disk')
    (hSees : Sees disk arguments project flat files) :
    Finishes time arguments disk project flat files (.error failure) disk' := by
  rcases hSees.catalog with ⟨path, hPath, hFlat⟩
  rcases hSees.sources with ⟨paths, hFind, hLoad⟩
  cases h with
  | project hFault => cases hSees.project_eq.symm.trans hFault
  | catalogPath hProject hFault =>
      cases hSees.project_eq.symm.trans hProject
      cases hPath.symm.trans hFault
  | catalog hProject hPath' hFault =>
      cases hSees.project_eq.symm.trans hProject
      cases hPath.symm.trans hPath'
      cases hFlat.symm.trans hFault
  | scan hProject hFault =>
      cases hSees.project_eq.symm.trans hProject
      cases hFind.symm.trans hFault
  | sources hProject hFind' hFault =>
      cases hSees.project_eq.symm.trans hProject
      cases hFind.symm.trans hFind'
      cases hLoad.symm.trans hFault
  | cache hSees' hCache hFault =>
      rcases hSees.unique hSees' with ⟨rfl, rfl, rfl⟩
      apply Finishes.unsaved
      intro hSaved
      rcases hSaved with ⟨saved, hPuts⟩
      have hSaves := saves_iff_puts.mpr hPuts
      rw [hCache] at hSaves
      cases hFault.symm.trans hSaves
  | report hSees' hSaves hFault =>
      rcases hSees.unique hSees' with ⟨rfl, rfl, rfl⟩
      refine Finishes.unreported (saves_iff_puts.mp hSaves) ?_
      intro content hWritten
      rcases (Disk.exists_write_iff _).mpr ((Disk.exists_write_iff content).mp hWritten) with
        ⟨written, hWrite⟩
      cases hFault.symm.trans (Report.write_eq_ok.mpr hWrite)

theorem finishes_run (time : String) (hSees : Sees disk arguments project flat files) :
    Finishes time arguments disk project flat files (run time disk (.unused arguments)).result
      (run time disk (.unused arguments)).disk := by
  cases hResult : (run time disk (.unused arguments)).result with
  | ok summary =>
      rcases exists_audited_of_result hResult with ⟨result, hAudited⟩
      have hSummary := hResult.symm.trans (audited_iff.mp hAudited).1
      rcases hAudited with ⟨project', flat', files', saved, hSees', hSaves, hWrite, rfl⟩
      rcases hSees.unique hSees' with ⟨rfl, rfl, rfl⟩
      cases hSummary
      exact .done (saves_iff_puts.mp hSaves) hWrite
  | error failure => exact (fails_of_result hResult).finishes hSees

theorem failure_of_not_sees (time : String)
    (h : ∀ project flat files, ¬Sees disk arguments project flat files) :
    (∃ failure, (run time disk (.unused arguments)).result = .error failure) ∧
      (run time disk (.unused arguments)).disk = disk := by
  cases hResult : (run time disk (.unused arguments)).result with
  | ok summary =>
      rcases exists_audited_of_result hResult with ⟨_, project, flat, files, _, hSees, _⟩
      exact absurd hSees (h project flat files)
  | error failure =>
      refine ⟨⟨failure, rfl⟩, ?_⟩
      rcases (fails_of_result hResult).disk_cases with hSame | ⟨_, project, flat, files, hSees, _⟩
      · exact hSame
      · exact absurd hSees (h project flat files)

end Ends

end UnusedKeys
end Audit
end CatalogAudit
