import CatalogAudit.Console.Lines
import CatalogAudit.Proofs.Usage.DepthMap

/-!
# The results of a report

The part on unused keys has a result for each pass. How many keys are unused is told a second time
by the count for the exit status, and a third time by the lines on the console, each from the depth
map on its own. After a run all of them agree, since a pass that leaves nothing is the last one.
-/

namespace CatalogAudit

open Report (unusedAtDepth unusedByDepth)

/-!
# Results and sets
-/

namespace Report

theorem length_keys_unusedAtDepth (cuts : Nat) (keys : KeySet) :
    (unusedAtDepth cuts keys).keys.length = keys.size := by
  unfold unusedAtDepth sorted
  rw [List.length_mergeSort, List.length_map]
  rfl

theorem keys_unusedAtDepth_eq_nil_iff {cuts : Nat} {keys : KeySet} :
    (unusedAtDepth cuts keys).keys = [] ↔ keys.size = 0 := by
  rw [← List.length_eq_zero_iff, length_keys_unusedAtDepth]

theorem unusedByDepth_depthsFrom (cuts : Nat) (sets : List KeySet) :
    unusedByDepth (Usage.depthsFrom (cuts + 1) sets) =
      List.zipWith unusedAtDepth (List.range' cuts sets.length) sets := by
  unfold unusedByDepth
  rw [Usage.entries_depthsFrom]
  induction sets generalizing cuts with
  | nil => rfl
  | cons keys rest ih =>
      rw [List.length_cons, List.range'_succ, List.range'_succ, List.zip_cons_cons,
        List.zipWith_cons_cons, List.filterMap_cons]
      exact congrArg _ (ih (cuts + 1))

end Report

namespace Usage

/-!
# Results of a run
-/

variable (maxDepth : DepthBound) (keys : KeySet) (files : List SourceFile)
  (cache : Option MatchCache)

/-- What the first pass leaves, and what the later ones do. Without survivors there are none. -/
theorem survivors_passes_cases (depth : Nat) (candidates : KeySet) :
    (passes maxDepth files depth candidates cache).survivors = [] ∨
      ∃ first rest, (passes maxDepth files depth candidates cache).survivors = first :: rest ∧
        (first.size = 0 → rest = []) := by
  by_cases hGo : Proceeds maxDepth depth candidates
  · rw [survivors_passes_of_proceeds hGo]
    refine Or.inr ⟨_, _, rfl, ?_⟩
    intro hEmpty
    have hNext : ¬Proceeds maxDepth (depth + 1)
        (shortened (search candidates files cache).survivors) := by
      intro hProceeds
      rcases isEmpty_eq_false_iff.mp hProceeds.2 with ⟨key, hKey⟩
      rcases mem_shortened.mp hKey with ⟨_, longer, hLonger, _⟩
      rw [SortedSet.mem_def, List.eq_nil_of_length_eq_zero hEmpty] at hLonger
      exact absurd hLonger List.not_mem_nil
    rw [passes_of_not_proceeds hNext]
  · rw [passes_of_not_proceeds hGo]
    exact Or.inl rfl

/-- The results of a run, and how many keys are unused as they are. -/
theorem results_run :
    let findings := (run maxDepth keys files cache).findings
    (unusedByDepth findings.depths = [] ∧ findings.literalCount = 0) ∨
      ∃ first rest, unusedByDepth findings.depths = first :: rest ∧ first.depth = 0 ∧
        first.keys.length = findings.literalCount ∧ (first.keys = [] → rest = []) := by
  intro findings
  have hResults : unusedByDepth findings.depths = List.zipWith unusedAtDepth
      (List.range' 0 (passes maxDepth files 0 keys cache).survivors.length)
      (passes maxDepth files 0 keys cache).survivors :=
    Report.unusedByDepth_depthsFrom 0 _
  have hCount := get?_depths_run maxDepth keys files cache 0
  rcases survivors_passes_cases maxDepth files cache 0 keys with
    hNone | ⟨first, rest, hSome, hLast⟩
  · left
    rw [hNone] at hResults hCount
    refine ⟨hResults, ?_⟩
    unfold UnusedFindings.literalCount
    rw [hCount]
    rfl
  · right
    rw [hSome] at hResults hCount
    refine ⟨unusedAtDepth 0 first, _, hResults, rfl, ?_, ?_⟩
    · unfold UnusedFindings.literalCount
      rw [hCount, Report.length_keys_unusedAtDepth]
      rfl
    · intro hEmpty
      rw [hLast (Report.keys_unusedAtDepth_eq_nil_iff.mp hEmpty)]
      rfl

theorem literalCount_run_eq_zero_iff :
    (run maxDepth keys files cache).findings.literalCount = 0 ↔
      ∀ result ∈ unusedByDepth (run maxDepth keys files cache).findings.depths,
        result.keys = [] := by
  rcases results_run maxDepth keys files cache with
    ⟨hNone, hZero⟩ | ⟨first, rest, hSome, _, hLength, hLast⟩
  · rw [hNone, hZero]
    simp
  · rw [hSome, ← hLength, List.length_eq_zero_iff]
    constructor
    · intro hEmpty
      rw [hLast hEmpty]
      simpa using hEmpty
    · intro hAll
      exact hAll first List.mem_cons_self

end Usage

/-!
# Texts of lines
-/

namespace Console

open Audit (GapsResult UnusedResult)

/-- What a line shows without colors. -/
def lineText (line : Line) : String :=
  String.join (line.map (·.render false))

def countText (count : Nat) (one many : String) : String :=
  toString count ++ " " ++ if count = 1 then one else many

theorem lineText_depthLine (depth count : Nat) :
    lineText (depthLine depth count) =
      "  - depth " ++ toString depth ++ ": " ++ countText count "key" "keys" := by
  apply String.toList_injective
  simp [lineText, Span.render, depthLine, counted, noun, countText, plain, styled]

theorem lineText_someUnusedLine (count total : Nat) :
    lineText (someUnusedLine count total) =
      "✘ " ++ toString count ++ " of " ++ countText total "key" "keys" ++ " unused" := by
  apply String.toList_injective
  simp [lineText, Span.render, someUnusedLine, counted, noun, countText, failureMark, plain, styled]

theorem lineText_allUsedLine (total filesChecked : Nat) :
    lineText (allUsedLine total filesChecked) =
      "✓ Checked " ++ countText total "key" "keys" ++ " in " ++
        countText filesChecked "source file" "source files" ++ " - no unused keys found" := by
  apply String.toList_injective
  simp [lineText, Span.render, allUsedLine, counted, noun, countText, successMark, plain, styled]

theorem lineText_someUntranslatedLine (count localeCount : Nat) :
    lineText (someUntranslatedLine count localeCount) =
      "✘ " ++ countText count "untranslated key" "untranslated keys" ++ " across " ++
        countText localeCount "locale" "locales" := by
  apply String.toList_injective
  by_cases hOne : count = 1
  · simp [lineText, Span.render, someUntranslatedLine, counted, noun, countText, failureMark,
      plain, styled, hOne]
  · simp [lineText, Span.render, someUntranslatedLine, counted, noun, countText, failureMark,
      plain, styled, hOne]

theorem lineText_allTranslatedLine (localeCount : Nat) :
    lineText (allTranslatedLine localeCount) =
      "✓ Checked " ++ countText localeCount "locale" "locales" ++
        " - no untranslated keys found" := by
  apply String.toList_injective
  simp [lineText, Span.render, allTranslatedLine, counted, noun, countText, successMark, plain,
    styled]

theorem lineText_reportLine (output : Path) :
    lineText (reportLine output) = "Report: " ++ output.shown := by
  apply String.toList_injective
  simp [lineText, Span.render, reportLine, plain, styled]

/-!
# Results and lines
-/

/-- The lines on the console have the depths and the numbers of keys of the results. -/
theorem depthCounts_eq (depths : SurvivorMap) :
    depthCounts depths =
      (unusedByDepth depths).map fun result => (result.depth, result.keys.length) := by
  unfold depthCounts unusedByDepth
  rw [List.map_filterMap]
  congr 1
  funext entry
  cases entry.1 with
  | zero => rfl
  | succ cuts =>
      show some (cuts, entry.2.size) = some (cuts, (unusedAtDepth cuts entry.2).keys.length)
      rw [Report.length_keys_unusedAtDepth]

theorem texts_unusedLines_of_zero {summary : UnusedResult}
    (h : summary.findings.literalCount = 0) :
    (unusedLines summary).map lineText =
      ["✓ Checked " ++ countText summary.findings.total "key" "keys" ++ " in " ++
          countText summary.filesChecked "source file" "source files" ++
          " - no unused keys found",
        "Report: " ++ summary.output.shown] := by
  unfold unusedLines
  simp only [h, if_true, List.map_cons, List.map_nil, lineText_allUsedLine, lineText_reportLine,
    List.cons_append, List.nil_append]

theorem texts_unusedLines_of_ne_zero {summary : UnusedResult}
    (h : summary.findings.literalCount ≠ 0) :
    (unusedLines summary).map lineText =
      ("✘ " ++ toString summary.findings.literalCount ++ " of " ++
          countText summary.findings.total "key" "keys" ++ " unused") ::
        (unusedByDepth summary.findings.depths).map (fun result =>
          "  - depth " ++ toString result.depth ++ ": " ++
            countText result.keys.length "key" "keys") ++
        ["Report: " ++ summary.output.shown] := by
  unfold unusedLines
  simp only [h, if_false, depthCounts_eq, List.map_map, List.map_append, List.map_cons,
    List.map_nil, Function.comp_def, lineText_someUnusedLine, lineText_depthLine,
    lineText_reportLine]

theorem texts_untranslatedLines_of_ne_zero {summary : GapsResult} (h : summary.gaps.size ≠ 0) :
    (untranslatedLines summary).map lineText =
      ["✘ " ++ countText summary.gaps.size "untranslated key" "untranslated keys" ++ " across " ++
          countText summary.localeCount "locale" "locales",
        "Report: " ++ summary.output.shown] := by
  unfold untranslatedLines
  simp only [h, if_false, List.map_cons, List.map_nil, lineText_someUntranslatedLine,
    lineText_reportLine]

/-!
# Headlines
-/

def headline? (lines : List Line) : Option String :=
  lines.head?.map lineText

theorem headline?_eq_head? (lines : List Line) : headline? lines = (lines.map lineText).head? :=
  List.head?_map.symm

/-- The headline that no key is unused is shown iff none is unused as it is. -/
theorem headline?_unusedLines {summary : UnusedResult} :
    (∃ checked, headline? (unusedLines summary) = some (checked ++ " - no unused keys found")) ↔
      summary.findings.literalCount = 0 := by
  rw [headline?_eq_head?]
  constructor
  · intro h
    rcases h with ⟨checked, hLine⟩
    refine Decidable.byContradiction fun hCount => ?_
    rw [texts_unusedLines_of_ne_zero hCount] at hLine
    have hEnds := congrArg (fun text => text.toList.reverse) (Option.some.inj hLine)
    simp at hEnds
  · intro hCount
    rw [texts_unusedLines_of_zero hCount]
    exact ⟨_, rfl⟩

theorem headline?_untranslatedLines {summary : GapsResult} :
    (∃ checked, headline? (untranslatedLines summary) =
        some (checked ++ " - no untranslated keys found")) ↔
      summary.gaps.size = 0 := by
  rw [headline?_eq_head?]
  constructor
  · intro h
    rcases h with ⟨checked, hLine⟩
    refine Decidable.byContradiction fun hCount => ?_
    rw [texts_untranslatedLines_of_ne_zero hCount] at hLine
    have hEnds := congrArg (fun text => text.toList.reverse) (Option.some.inj hLine)
    unfold countText at hEnds
    by_cases hOne : summary.localeCount = 1
    · simp [hOne] at hEnds
    · simp [hOne] at hEnds
  · intro hCount
    unfold untranslatedLines
    simp only [hCount, if_true, List.map_cons, lineText_allTranslatedLine, List.head?_cons]
    exact ⟨_, rfl⟩

end Console
end CatalogAudit
