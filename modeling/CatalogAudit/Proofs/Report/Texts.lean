import CatalogAudit.Proofs.Yaml.Blocks
import CatalogAudit.Report.Document

/-!
# Reports are determined by their texts

The text of a report gives back who has written it, when, and everything that it tells, whatever
characters stand in keys, paths, and names of locales. So no key can make a report look like
another one.
-/

namespace CatalogAudit
namespace Report

open Yaml (Alike Block document)

/-!
# Blocks of the parts
-/

/-- The blocks of all values are of one kind, and each determines its value. -/
structure IsFaithful {α : Type} (write : α → Block) : Prop where
  alike : ∀ a b, Alike (write a) (write b)
  inj : ∀ a b, write a = write b → a = b

theorem isFaithful_text : IsFaithful Block.text where
  alike := .text
  inj _ _ h := Block.text.inj h

theorem IsFaithful.items {α : Type} {write : α → Block} (h : IsFaithful write) :
    IsFaithful fun values : List α => .items (values.map write) where
  alike values values' := by
    refine .items ?_
    intro block hBlock block' hBlock'
    rcases List.mem_map.mp hBlock with ⟨a, _, rfl⟩
    rcases List.mem_map.mp hBlock' with ⟨b, _, rfl⟩
    exact h.alike a b
  inj values values' hBlocks :=
    (List.map_inj_right h.inj).mp (Block.items.inj hBlocks)

theorem isFaithful_textItems : IsFaithful textItems :=
  isFaithful_text.items

theorem isFaithful_header : IsFaithful Header.block where
  alike header header' := by
    refine .fields (by simp; decide) (by simp; decide) ?_
    simp [Alike.text]
  inj header header' h := by
    obtain ⟨tool, version, time⟩ := header
    obtain ⟨tool', version', time'⟩ := header'
    simpa [Header.block] using h

theorem isFaithful_anomalyGroup : IsFaithful AnomalyGroup.block where
  alike group group' := by
    refine .fields (by simp; decide) (by simp; decide) ?_
    simp [Alike.text, isFaithful_textItems.alike]
  inj group group' h := by
    -- There is one kind of anomaly only.
    obtain ⟨⟨⟩, paths⟩ := group
    obtain ⟨⟨⟩, paths'⟩ := group'
    simp only [AnomalyGroup.block, Block.fields.injEq, List.cons.injEq, Prod.mk.injEq, true_and,
      and_true] at h
    rw [isFaithful_textItems.inj _ _ h]

theorem isFaithful_unusedAtDepth : IsFaithful UnusedAtDepth.block where
  alike result result' := by
    refine .fields (by simp; decide) (by simp; decide) ?_
    simp [Alike.number, isFaithful_textItems.alike]
  inj result result' h := by
    obtain ⟨depth, keys⟩ := result
    obtain ⟨depth', keys'⟩ := result'
    simp only [UnusedAtDepth.block, Block.fields.injEq, List.cons.injEq, Prod.mk.injEq, true_and,
      and_true, Block.number.injEq] at h
    rw [h.1, isFaithful_textItems.inj _ _ h.2]

theorem isFaithful_gap : IsFaithful Gap.block where
  alike result result' := by
    refine .fields (by simp; decide) (by simp; decide) ?_
    simp [Alike.text, isFaithful_textItems.alike]
  inj result result' h := by
    obtain ⟨key, missing⟩ := result
    obtain ⟨key', missing'⟩ := result'
    simp only [Gap.block, Block.fields.injEq, List.cons.injEq, Prod.mk.injEq, true_and,
      and_true, Block.text.injEq] at h
    rw [h.1, isFaithful_textItems.inj _ _ h.2]

theorem isFaithful_gapsPart : IsFaithful GapsPart.block where
  alike part part' := by
    refine .fields (by simp; decide) (by simp; decide) ?_
    simp [Alike.number, isFaithful_gap.items.alike]
  inj part part' h := by
    obtain ⟨total, results⟩ := part
    obtain ⟨total', results'⟩ := part'
    simp only [GapsPart.block, Block.fields.injEq, List.cons.injEq, Prod.mk.injEq, true_and,
      and_true, Block.number.injEq] at h
    rw [h.1, isFaithful_gap.items.inj _ _ h.2]

def unusedEntries (part : UnusedPart) : List (String × Block) :=
  ("total", .number part.total) ::
    (if part.warnings.isEmpty then [] else [("warnings", .items (part.warnings.map (·.block)))]) ++
      [("results", .items (part.results.map (·.block)))]

theorem mem_unusedEntries {part : UnusedPart} {entry : String × Block}
    (h : entry ∈ unusedEntries part) :
    entry = ("total", .number part.total) ∨
      entry = ("warnings", .items (part.warnings.map (·.block))) ∨
        entry = ("results", .items (part.results.map (·.block))) := by
  unfold unusedEntries at h
  split at h
  · rcases List.mem_cons.mp h with hTotal | hResults
    · exact Or.inl hTotal
    · exact Or.inr (Or.inr (List.mem_singleton.mp hResults))
  · simpa using h

theorem unusedEntries_of_nil {part : UnusedPart} (h : part.warnings = []) :
    unusedEntries part =
      [("total", .number part.total), ("results", .items (part.results.map (·.block)))] := by
  unfold unusedEntries
  rw [h]
  rfl

theorem unusedEntries_of_ne_nil {part : UnusedPart} (h : part.warnings ≠ []) :
    unusedEntries part = [("total", .number part.total),
      ("warnings", .items (part.warnings.map (·.block))),
      ("results", .items (part.results.map (·.block)))] := by
  unfold unusedEntries
  rw [if_neg (by simpa using h)]
  rfl

theorem isFaithful_unusedPart : IsFaithful UnusedPart.block where
  alike part part' := by
    have hNames : ∀ part, ∀ entry ∈ unusedEntries part, Yaml.IsName entry.1 := by
      intro part entry hEntry
      have hName : entry.1 = "total" ∨ entry.1 = "warnings" ∨ entry.1 = "results" :=
        (mem_unusedEntries hEntry).imp (congrArg Prod.fst)
          (Or.imp (congrArg Prod.fst) (congrArg Prod.fst))
      rcases hName with hName | hName | hName
      all_goals
        rw [hName]
        decide
    refine .fields (hNames part) (hNames part') ?_
    intro entry hEntry entry' hEntry' hSame
    rcases mem_unusedEntries hEntry with rfl | rfl | rfl
    · rcases mem_unusedEntries hEntry' with rfl | rfl | rfl
      · exact .number _ _
      · exact absurd hSame (by simp)
      · exact absurd hSame (by simp)
    · rcases mem_unusedEntries hEntry' with rfl | rfl | rfl
      · exact absurd hSame (by simp)
      · exact isFaithful_anomalyGroup.items.alike _ _
      · exact absurd hSame (by simp)
    · rcases mem_unusedEntries hEntry' with rfl | rfl | rfl
      · exact absurd hSame (by simp)
      · exact absurd hSame (by simp)
      · exact isFaithful_unusedAtDepth.items.alike _ _
  inj part part' h := by
    have hEntries : unusedEntries part = unusedEntries part' := Block.fields.inj h
    obtain ⟨total, warnings, results⟩ := part
    obtain ⟨total', warnings', results'⟩ := part'
    -- Without warnings their field is missing, so the number of fields tells the two kinds apart.
    by_cases hNone : warnings = []
    · rw [unusedEntries_of_nil hNone] at hEntries
      by_cases hNone' : warnings' = []
      · rw [unusedEntries_of_nil hNone'] at hEntries
        simp only [List.cons.injEq, Prod.mk.injEq, true_and, and_true, Block.number.injEq]
          at hEntries
        rw [hNone, hNone', hEntries.1, isFaithful_unusedAtDepth.items.inj _ _ hEntries.2]
      · rw [unusedEntries_of_ne_nil hNone'] at hEntries
        simp at hEntries
    · rw [unusedEntries_of_ne_nil hNone] at hEntries
      by_cases hNone' : warnings' = []
      · rw [unusedEntries_of_nil hNone'] at hEntries
        simp at hEntries
      · rw [unusedEntries_of_ne_nil hNone'] at hEntries
        simp only [List.cons.injEq, Prod.mk.injEq, true_and, and_true, Block.number.injEq]
          at hEntries
        rw [hEntries.1, isFaithful_anomalyGroup.items.inj _ _ hEntries.2.1,
          isFaithful_unusedAtDepth.items.inj _ _ hEntries.2.2]

/-!
# Documents
-/

/-- A report with any part on unused keys, be it one that findings make or not. -/
def unusedDocument (header : Header) (part : UnusedPart) : String :=
  document [("meta", header.block), ("unused", part.block)]

def gapsDocument (header : Header) (part : GapsPart) : String :=
  document [("meta", header.block), ("untranslated", part.block)]

theorem report_inj {name name' : String} (hName : Yaml.IsName name) (hName' : Yaml.IsName name')
    (hMeta : "meta" ≠ name) (hMeta' : "meta" ≠ name') {header header' : Header}
    {block block' : Block} (hAlike : name = name' → Alike block block')
    (h : document [("meta", header.block), (name, block)] =
      document [("meta", header'.block), (name', block')]) :
    name = name' ∧ header = header' ∧ block = block' := by
  have hEntries := Yaml.document_inj (.fields (by simp [hName]; decide) (by simp [hName']; decide)
    (by simpa [hMeta', hMeta.symm, isFaithful_header.alike] using hAlike)) h
  simp only [List.cons.injEq, Prod.mk.injEq, true_and, and_true] at hEntries
  exact ⟨hEntries.2.1, isFaithful_header.inj _ _ hEntries.1, hEntries.2.2⟩

theorem unusedDocument_inj {header header' : Header} {part part' : UnusedPart}
    (h : unusedDocument header part = unusedDocument header' part') :
    header = header' ∧ part = part' := by
  rcases report_inj (by decide) (by decide) (by decide) (by decide)
    (fun _ => isFaithful_unusedPart.alike part part') h with ⟨_, hHeader, hPart⟩
  exact ⟨hHeader, isFaithful_unusedPart.inj _ _ hPart⟩

theorem gapsDocument_inj {header header' : Header} {part part' : GapsPart}
    (h : gapsDocument header part = gapsDocument header' part') :
    header = header' ∧ part = part' := by
  rcases report_inj (by decide) (by decide) (by decide) (by decide)
    (fun _ => isFaithful_gapsPart.alike part part') h with ⟨_, hHeader, hPart⟩
  exact ⟨hHeader, isFaithful_gapsPart.inj _ _ hPart⟩

theorem unusedDocument_ne_gapsDocument (header header' : Header) (part : UnusedPart)
    (part' : GapsPart) : unusedDocument header part ≠ gapsDocument header' part' := by
  intro h
  have hKinds : "unused" ≠ "untranslated" := by decide
  exact hKinds (report_inj (by decide) (by decide) (by decide) (by decide)
    (fun hSame => absurd hSame hKinds) h).1

/--
Reports have the same text iff they have the same header and the same part. No text in them makes a
report look like one with any other part, and none like a report of the other kind.
-/
theorem texts_determine_reports :
    (∀ (header header' : Header) (findings findings' : UnusedFindings)
      (warnings warnings' : List Catalog.Warning),
      unusedText header findings warnings = unusedText header' findings' warnings' ↔
        header = header' ∧
          UnusedPart.of findings warnings = UnusedPart.of findings' warnings') ∧
    (∀ (header header' : Header) (gaps gaps' : Locale.TranslationGaps),
      gapsText header gaps = gapsText header' gaps' ↔
        header = header' ∧ GapsPart.of gaps = GapsPart.of gaps') ∧
    (∀ (header header' : Header) (findings : UnusedFindings) (warnings : List Catalog.Warning)
      (part : UnusedPart), unusedText header findings warnings = unusedDocument header' part →
        header = header' ∧ UnusedPart.of findings warnings = part) ∧
    (∀ (header header' : Header) (gaps : Locale.TranslationGaps) (part : GapsPart),
      gapsText header gaps = gapsDocument header' part →
        header = header' ∧ GapsPart.of gaps = part) ∧
    ∀ (header header' : Header) (part : UnusedPart) (part' : GapsPart),
      unusedDocument header part ≠ gapsDocument header' part' := by
  refine ⟨?_, ?_, ?_, ?_, unusedDocument_ne_gapsDocument⟩
  · intro header header' findings findings' warnings warnings'
    constructor
    · exact unusedDocument_inj
    · rintro ⟨rfl, hPart⟩
      exact congrArg (unusedDocument header) hPart
  · intro header header' gaps gaps'
    constructor
    · exact gapsDocument_inj
    · rintro ⟨rfl, hPart⟩
      exact congrArg (gapsDocument header) hPart
  · intro header header' findings warnings part
    exact unusedDocument_inj
  · intro header header' gaps part
    exact gapsDocument_inj

end Report
end CatalogAudit
