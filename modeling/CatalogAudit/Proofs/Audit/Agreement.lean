import CatalogAudit.Proofs.Audit.Repeat
import CatalogAudit.Proofs.Audit.TranslationGaps
import CatalogAudit.Proofs.Report.Results

/-!
# Status, summary and report

A run accounts for its findings three times: by the exit status, by the lines on the output stream,
and by the report on the disk. The three tell the same. A run that fails has a status of its own.
-/

namespace CatalogAudit
namespace Audit

open CommandLine (Command UnusedArguments UntranslatedArguments)
open Console (countText headline? lineText outputLines)
open FileTree (Disk)
open Report (GapsPart Header UnusedPart)

theorem code_statusOf_ok (strict : Bool) (summary : Summary) :
    (statusOf strict (.ok summary)).code =
      if strict = true ∧ summary.findingCount ≠ 0 then 1 else 0 := by
  unfold statusOf
  simp only [Bool.and_eq_true, decide_eq_true_eq, Nat.pos_iff_ne_zero]
  split
  · rfl
  · rfl

/-!
# Unused keys
-/

namespace UnusedKeys

/-- The outcome and the report on its disk tell the same. -/
structure Accords (time : String) (disk : Disk) (arguments : UnusedArguments)
    (report : UnusedPart) (outcome : Outcome) : Prop where
  written : ∃ project, Project.load disk = .ok project ∧
    outcome.disk.readBytes (outputOf project arguments) = .ok (bytesOf
      (Yaml.document [("meta", (Header.at time).block), ("unused", report.block)]))
  code : outcome.status.code =
    if arguments.strict = true ∧ ∃ result ∈ report.results, result.keys ≠ [] then 1 else 0
  allUsed : (∃ checked, headline? (outputLines outcome.result) =
      some (checked ++ " - no unused keys found")) ↔
    ∀ result ∈ report.results, result.keys = []
  someUnused : (∃ result ∈ report.results, result.keys ≠ []) →
    ∃ first rest output, report.results = first :: rest ∧ first.depth = 0 ∧
      (outputLines outcome.result).map lineText =
        ("✘ " ++ toString first.keys.length ++ " of " ++ countText report.total "key" "keys" ++
            " unused") ::
          report.results.map (fun result =>
            "  - depth " ++ toString result.depth ++ ": " ++
              countText result.keys.length "key" "keys") ++
          ["Report: " ++ output]

section Audits

variable {time : String} {arguments : UnusedArguments} {disk disk' : Disk} {result : UnusedResult}

theorem Audited.isSound (hTop : disk.top.IsSound) (h : Audited time arguments disk result disk') :
    disk.IsSound := by
  rcases h with ⟨project, flat, files, saved, hSees, _⟩
  exact ⟨hTop, (Project.load_eq_ok.mp hSees.project_eq).1⟩

theorem readBytes_of_audited (hSound : disk.IsSound)
    (h : Audited time arguments disk result disk') :
    ∃ project, Project.load disk = .ok project ∧
      disk'.readBytes (outputOf project arguments) =
        .ok (bytesOf (Report.unusedText (.at time) result.findings result.warnings)) := by
  rcases h with ⟨project, flat, files, saved, hSees, hSaves, hWrite, rfl⟩
  have hSaved := (changedIn_of_puts hSound (saves_iff_puts.mp hSaves)).1.isSound hSound
  rcases Disk.changedAt_of_write hSaved (Report.write_eq_ok.mp hWrite) with ⟨_, _, _, hRead⟩
  exact ⟨project, hSees.project_eq, hRead⟩

theorem exists_run_of_audited (h : Audited time arguments disk result disk') :
    ∃ maxDepth keys files cache, (Usage.run maxDepth keys files cache).findings =
      result.findings := by
  rcases h with ⟨project, flat, files, _, _, _, _, rfl⟩
  exact ⟨depthOf project arguments, keysLeft disk (ignoreListPath? project arguments) flat.keys,
    files, cacheAt disk (isCached project arguments) (rootOf project arguments), rfl⟩

theorem accords_of_audited (hSound : disk.IsSound)
    (h : Audited time arguments disk result disk') :
    Accords time disk arguments (.of result.findings result.warnings)
      (run time disk (.unused arguments)) := by
  have hWritten := readBytes_of_audited hSound h
  rcases exists_run_of_audited h with ⟨maxDepth, keys, files, cache, hRun⟩
  rcases audited_iff.mp h with ⟨hResult, rfl⟩
  have hZero := Usage.literalCount_run_eq_zero_iff maxDepth keys files cache
  have hResults := Usage.results_run maxDepth keys files cache
  rw [hRun] at hZero
  simp only [hRun] at hResults
  have hSome : result.findings.literalCount ≠ 0 ↔
      ∃ shown ∈ Report.unusedByDepth result.findings.depths, shown.keys ≠ [] := by
    rw [Ne, hZero]
    simp only [not_forall, exists_prop, ne_eq]
  constructor
  case written => exact hWritten
  case code =>
    rw [status_run, hResult, code_statusOf_ok]
    exact if_congr (and_congr_right fun _ => hSome) rfl rfl
  case allUsed =>
    rw [hResult]
    exact Console.headline?_unusedLines.trans hZero
  case someUnused =>
    intro hKeys
    have hCount := hSome.mpr hKeys
    rcases hResults with ⟨_, hNone⟩ | ⟨first, rest, hFirst, hDepth, hLength, _⟩
    · exact absurd hNone hCount
    · refine ⟨first, rest, result.output.shown, hFirst, hDepth, ?_⟩
      rw [hResult, hLength]
      exact Console.texts_unusedLines_of_ne_zero hCount

end Audits

end UnusedKeys

/-!
# Untranslated keys
-/

namespace TranslationGaps

structure Accords (time : String) (disk : Disk) (arguments : UntranslatedArguments)
    (report : GapsPart) (outcome : Outcome) : Prop where
  written : ∃ project, Project.load disk = .ok project ∧
    outcome.disk.readBytes (outputOf project arguments) = .ok (bytesOf
      (Yaml.document [("meta", (Header.at time).block), ("untranslated", report.block)]))
  code : outcome.status.code = if arguments.strict = true ∧ report.results ≠ [] then 1 else 0
  allTranslated : (∃ checked, headline? (outputLines outcome.result) =
      some (checked ++ " - no untranslated keys found")) ↔
    report.results = []
  someUntranslated : report.results ≠ [] →
    ∃ localeCount output, (outputLines outcome.result).map lineText =
      ["✘ " ++ countText report.results.length "untranslated key" "untranslated keys" ++
          " across " ++ countText localeCount "locale" "locales",
        "Report: " ++ output]

section Audits

variable {time : String} {arguments : UntranslatedArguments} {disk disk' : Disk}
  {result : GapsResult}

theorem Audited.isSound (hTop : disk.top.IsSound) (h : Audited time arguments disk result disk') :
    disk.IsSound := by
  rcases h with ⟨project, locales, gaps, hProject, _⟩
  exact ⟨hTop, (Project.load_eq_ok.mp hProject).1⟩

theorem accords_of_audited (hSound : disk.IsSound)
    (h : Audited time arguments disk result disk') :
    Accords time disk arguments (.of result.gaps) (run time disk (.untranslated arguments)) := by
  rcases audited_iff.mp h with ⟨hResult, rfl⟩
  rcases h with ⟨project, locales, gaps, hProject, _, _, _, hWrite, rfl⟩
  have hLength : (GapsPart.of gaps).results.length = gaps.size := List.length_map _
  have hNil : gaps.size = 0 ↔ (GapsPart.of gaps).results = [] := by
    rw [← hLength, List.length_eq_zero_iff]
  constructor
  case written =>
    rcases Disk.changedAt_of_write hSound (Report.write_eq_ok.mp hWrite) with ⟨_, _, _, hRead⟩
    exact ⟨project, hProject, hRead⟩
  case code =>
    rw [status_run, hResult, code_statusOf_ok]
    exact if_congr (and_congr_right fun _ => not_congr hNil) rfl rfl
  case allTranslated =>
    rw [hResult]
    exact Console.headline?_untranslatedLines.trans hNil
  case someUntranslated =>
    intro hSome
    refine ⟨locales.size, (outputOf project arguments).shown, ?_⟩
    rw [hResult, hLength]
    exact Console.texts_untranslatedLines_of_ne_zero fun hZero => hSome (hNil.mp hZero)

end Audits

end TranslationGaps

/-!
# All runs
-/

/--
A run without a failure writes a report that its status and its lines agree with, and a run that
fails has the status two.
-/
theorem accords_run {disk : Disk} (hTop : disk.top.IsSound) (time : String) :
    (∀ arguments summary, (run time disk (.unused arguments)).result = .ok summary →
      ∃ report, UnusedKeys.Accords time disk arguments report
        (run time disk (.unused arguments))) ∧
      (∀ arguments summary, (run time disk (.untranslated arguments)).result = .ok summary →
        ∃ report, TranslationGaps.Accords time disk arguments report
          (run time disk (.untranslated arguments))) ∧
      ∀ command failure, (run time disk command).result = .error failure →
        (run time disk command).status.code = 2 := by
  refine ⟨?_, ?_, ?_⟩
  · intro arguments summary hResult
    rcases UnusedKeys.exists_audited_of_result hResult with ⟨result, hAudited⟩
    exact ⟨_, UnusedKeys.accords_of_audited (hAudited.isSound hTop) hAudited⟩
  · intro arguments summary hResult
    rcases TranslationGaps.exists_audited_of_result hResult with ⟨result, hAudited⟩
    exact ⟨_, TranslationGaps.accords_of_audited (hAudited.isSound hTop) hAudited⟩
  · intro command failure hResult
    rw [status_run, hResult]
    rfl

def smallDisk : Disk where
  top := .directory [
    (bytesOf "a.ts", .file (bytesOf "t('menu.open')")),
    (bytesOf "locales", .directory [
      (bytesOf "en.json",
        .file (bytesOf "\x7b\"menu\":\x7b\"open\":\"Open\",\"close\":\"Close\"\x7d\x7d")),
      (bytesOf "fr.json", .file (bytesOf "\x7b\x7d"))])]
  cwd := []

def smallArguments : UnusedArguments :=
  { UnusedArguments.blank with localePath := some (bytesOf "locales/en.json"), strict := true }

theorem isSound_smallDisk : smallDisk.IsSound := by
  decide +kernel

/-- The three kinds of runs. Without a catalog there is no audit of unused keys. -/
theorem accords_run_smallDisk :
    (run "now" smallDisk (.unused smallArguments)).status.code = 1 ∧
      (∃ report, UnusedKeys.Accords "now" smallDisk smallArguments report
        (run "now" smallDisk (.unused smallArguments))) ∧
      (∃ report, TranslationGaps.Accords "now" smallDisk .blank report
        (run "now" smallDisk (.untranslated .blank))) ∧
      (run "now" smallDisk (.unused .blank)).status.code = 2 := by
  have hStatus : (run "now" smallDisk (.unused smallArguments)).status = .findings ∧
      (run "now" smallDisk (.untranslated .blank)).status = .success ∧
      (run "now" smallDisk (.unused .blank)).status = .failure := by
    decide +kernel
  rcases hStatus with ⟨hFindings, hSuccess, hFailure⟩
  rcases exists_result_of_status (by rw [hFindings]; decide) with ⟨unused, hUnused⟩
  rcases exists_result_of_status (by rw [hSuccess]; decide) with ⟨gaps, hGaps⟩
  rcases exists_failure_of_status hFailure with ⟨failure, hFailed⟩
  rcases accords_run isSound_smallDisk.top "now" with ⟨hOnUnused, hOnGaps, hOnFailure⟩
  exact ⟨congrArg ExitStatus.code hFindings, hOnUnused _ _ hUnused, hOnGaps _ _ hGaps,
    hOnFailure _ _ hFailed⟩

end Audit
end CatalogAudit
