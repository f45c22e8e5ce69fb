import CatalogAudit.Proofs.Audit.Work

/-!
# What an audit of untranslated keys does

An audit that succeeds has read a project and the catalogs of all locales, and has then written the
report on the gaps. It writes nothing else.
-/

namespace CatalogAudit
namespace Audit
namespace TranslationGaps

open CommandLine (UntranslatedArguments)
open FileTree (Disk)
open Work

def directoryOf (project : Project) (arguments : UntranslatedArguments) : Path :=
  project.pathOr arguments.path project.settings.localesDir

def outputOf (project : Project) (arguments : UntranslatedArguments) : Path :=
  project.pathOr arguments.output project.settings.untranslatedOutput

def baseOf (project : Project) (arguments : UntranslatedArguments) : String :=
  arguments.baseLocale.getD project.settings.baseLocale

/-- An audit of this disk has this result and leaves the other disk. -/
def Audited (time : String) (arguments : UntranslatedArguments) (disk : Disk)
    (result : GapsResult) (disk' : Disk) : Prop :=
  ∃ project locales gaps, Project.load disk = .ok project ∧
    Settings.checkLocaleCode (baseOf project arguments) = .ok () ∧
    Locale.loadAll disk (directoryOf project arguments) = .ok locales ∧
    Locale.gaps locales (baseOf project arguments) = .ok gaps ∧
    Report.write disk (outputOf project arguments) (Report.gapsText (.at time) gaps) = .ok disk' ∧
    result = ⟨gaps, locales.size, outputOf project arguments⟩

theorem leads_audit {time : String} {arguments : UntranslatedArguments} {disk disk' : Disk}
    {notes : List Note} {result : GapsResult} :
    Leads (audit time arguments) ⟨disk, notes⟩ result disk' ↔
      Audited time arguments disk result disk' := by
  have hSteps : Leads (audit time arguments) ⟨disk, notes⟩ result disk' ↔
      ∃ project, Project.load disk = .ok project ∧
        ∃ accepted, Settings.checkLocaleCode (baseOf project arguments) = .ok accepted ∧
        ∃ locales, Locale.loadAll disk (directoryOf project arguments) = .ok locales ∧
        ∃ gaps, Locale.gaps locales (baseOf project arguments) = .ok gaps ∧
        ∃ written, Report.write disk (outputOf project arguments)
          (Report.gapsText (.at time) gaps) = .ok written ∧
        result = ⟨gaps, locales.size, outputOf project arguments⟩ ∧ disk' = written := by
    unfold audit
    refine leads_look_bind.trans (exists_congr fun project => and_congr_right fun _ => ?_)
    refine leads_require_bind.trans (exists_congr fun _ => and_congr_right fun _ => ?_)
    refine leads_look_bind.trans (exists_congr fun locales => and_congr_right fun _ => ?_)
    refine (tells_note _).leads_bind fun _ => ?_
    refine leads_require_bind.trans (exists_congr fun gaps => and_congr_right fun _ => ?_)
    refine (tells_note _).leads_bind fun _ => ?_
    refine leads_change_bind.trans (exists_congr fun written => and_congr_right fun _ => ?_)
    exact (tells_note _).leads_bind fun _ => leads_pure
  rw [hSteps]
  constructor
  · intro h
    rcases h with ⟨project, hProject, _, hBase, locales, hLocales, gaps, hGaps, written, hWrite,
      hResult, rfl⟩
    exact ⟨project, locales, gaps, hProject, hBase, hLocales, hGaps, hWrite, hResult⟩
  · intro h
    rcases h with ⟨project, locales, gaps, hProject, hBase, hLocales, hGaps, hWrite, hResult⟩
    exact ⟨project, hProject, (), hBase, locales, hLocales, gaps, hGaps, disk', hWrite, hResult,
      rfl⟩

theorem audited_iff {time : String} {arguments : UntranslatedArguments} {disk disk' : Disk}
    {result : GapsResult} :
    Audited time arguments disk result disk' ↔
      (run time disk (.untranslated arguments)).result = .ok (.untranslated result) ∧
        (run time disk (.untranslated arguments)).disk = disk' := by
  rw [← @leads_audit time arguments disk disk' []]
  exact leads_iff_of_map rfl fun _ _ h => Summary.untranslated.inj h

theorem exists_audited_of_result {time : String} {arguments : UntranslatedArguments} {disk : Disk}
    {summary : Summary} (h : (run time disk (.untranslated arguments)).result = .ok summary) :
    ∃ result, Audited time arguments disk result
      (run time disk (.untranslated arguments)).disk := by
  rcases exists_leads_of_result rfl h with ⟨result, hAudit⟩
  exact ⟨result, leads_audit.mp hAudit⟩

theorem exists_audited_of_status {time : String} {arguments : UntranslatedArguments} {disk : Disk}
    (h : (run time disk (.untranslated arguments)).status ≠ .failure) :
    ∃ result, Audited time arguments disk result
      (run time disk (.untranslated arguments)).disk := by
  rcases exists_result_of_status h with ⟨summary, hResult⟩
  exact exists_audited_of_result hResult

theorem disk_eq_of_stops {time : String} {arguments : UntranslatedArguments} {disk disk' : Disk}
    {notes : List Note} {failure : Failure}
    (h : Stops (audit time arguments) ⟨disk, notes⟩ failure disk') : disk' = disk := by
  unfold audit at h
  rcases stops_look_bind.mp h with ⟨_, _, _, hSame⟩ | ⟨project, _, h⟩
  · exact hSame
  rcases stops_require_bind.mp h with ⟨_, _, _, hSame⟩ | ⟨_, _, h⟩
  · exact hSame
  rcases stops_look_bind.mp h with ⟨_, _, _, hSame⟩ | ⟨locales, _, h⟩
  · exact hSame
  rcases (tells_note _).exists_stops h with ⟨_, h⟩
  rcases stops_require_bind.mp h with ⟨_, _, _, hSame⟩ | ⟨gaps, _, h⟩
  · exact hSame
  rcases (tells_note _).exists_stops h with ⟨_, h⟩
  rcases stops_change_bind.mp h with ⟨_, _, _, hSame⟩ | ⟨written, _, h⟩
  · exact hSame
  rcases (tells_note _).exists_stops h with ⟨_, h⟩
  exact absurd h not_stops_pure

theorem disk_eq_of_result {time : String} {arguments : UntranslatedArguments} {disk : Disk}
    {failure : Failure}
    (h : (run time disk (.untranslated arguments)).result = .error failure) :
    (run time disk (.untranslated arguments)).disk = disk := by
  exact disk_eq_of_stops (stops_of_result rfl h)

end TranslationGaps
end Audit
end CatalogAudit
