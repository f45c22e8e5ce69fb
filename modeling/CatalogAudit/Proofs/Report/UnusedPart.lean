import CatalogAudit.Proofs.Ordered.Lookup
import CatalogAudit.Proofs.Text.ByteOrder
import CatalogAudit.Report.Document

/-!
# The part on unused keys

Keys are starred before they are sorted, so the order of a result is that of the starred texts. All
texts of one result have the same number of stars at their ends, and its depth tells the number.
Taking them off gives the set of the pass back, whatever the keys end in.
-/

namespace CatalogAudit
namespace Report

/-!
# Sorted texts
-/

theorem bytesOf_le {s t : String} (h : s ≤ t) : bytesOf s ≤ bytesOf t := by
  rcases Std.le_iff_lt_or_eq.mp h with hLess | rfl
  · exact Std.le_of_lt (bytesOf_lt hLess)
  · exact Std.le_refl _

theorem sorted_perm (texts : List String) : (sorted texts).Perm texts :=
  List.mergeSort_perm _ _

theorem pairwise_sorted (texts : List String) : (sorted texts).Pairwise (· ≤ ·) := by
  have hTrans : ∀ a b c : String, decide (a ≤ b) = true → decide (b ≤ c) = true →
      decide (a ≤ c) = true := by
    intro a b c hFirst hSecond
    exact decide_eq_true (Std.le_trans (of_decide_eq_true hFirst) (of_decide_eq_true hSecond))
  have hTotal : ∀ a b : String, (decide (a ≤ b) || decide (b ≤ a)) = true := by
    intro a b
    simpa using Std.le_total (a := a) (b := b)
  exact (List.pairwise_mergeSort hTrans hTotal texts).imp fun h => of_decide_eq_true h

theorem pairwise_lt_sorted {texts : List String} (h : texts.Nodup) :
    (sorted texts).Pairwise (· < ·) := by
  have hNodup : (sorted texts).Pairwise (· ≠ ·) := (sorted_perm texts).nodup_iff.mpr h
  refine ((pairwise_sorted texts).and hNodup).imp ?_
  intro a b h
  exact Std.lt_of_le_of_ne h.1 h.2

/-!
# Stars
-/

theorem starred_eq (cuts : Nat) (key : String) :
    starred cuts key = key ++ String.join (List.replicate cuts ".*") := by
  apply String.toList_injective
  unfold starred starSuffix
  rw [String.toList_ofList, String.toList_append, String.toList_join, List.flatMap_def,
    List.map_replicate]
  rfl

theorem starred_inj {cuts : Nat} {key key' : String} (h : starred cuts key = starred cuts key') :
    key = key' := by
  have hChars : key.toList ++ starSuffix cuts = key'.toList ++ starSuffix cuts := by
    simpa [starred] using congrArg String.toList h
  exact String.toList_injective (List.append_cancel_right hChars)

theorem mem_keys_unusedAtDepth {cuts : Nat} {keys : KeySet} {text : String} :
    text ∈ (unusedAtDepth cuts keys).keys ↔ ∃ key, key ∈ keys ∧ text = starred cuts key := by
  show text ∈ sorted (keys.toList.map (starred cuts)) ↔ _
  rw [(sorted_perm _).mem_iff, List.mem_map]
  simp only [SortedSet.mem_def, eq_comm]

theorem pairwise_keys_unusedAtDepth (cuts : Nat) (keys : KeySet) :
    (unusedAtDepth cuts keys).keys.Pairwise (· < ·) := by
  apply pairwise_lt_sorted
  have hNodup : keys.toList.Nodup := by
    refine keys.ascending.imp ?_
    intro a b hLess hEq
    exact Std.lt_irrefl (hEq ▸ hLess)
  exact hNodup.map fun _ _ h => starred_inj h

theorem unusedAtDepth_inj {cuts : Nat} {keys keys' : KeySet}
    (h : unusedAtDepth cuts keys = unusedAtDepth cuts keys') : keys = keys' := by
  have hSubset : ∀ {keys keys' : KeySet}, unusedAtDepth cuts keys = unusedAtDepth cuts keys' →
      ∀ key, key ∈ keys → key ∈ keys' := by
    intro keys keys' h key hKey
    have hText : starred cuts key ∈ (unusedAtDepth cuts keys').keys :=
      h ▸ mem_keys_unusedAtDepth.mpr ⟨key, hKey, rfl⟩
    rcases mem_keys_unusedAtDepth.mp hText with ⟨other, hOther, hEq⟩
    exact starred_inj hEq ▸ hOther
  exact SortedSet.ext_mem fun key => ⟨hSubset h key, hSubset h.symm key⟩

/-!
# Results
-/

theorem mem_unusedByDepth {depths : SurvivorMap} {result : UnusedAtDepth} :
    result ∈ unusedByDepth depths ↔ ∃ keys, depths.get? (result.depth + 1) = some keys ∧
      result = unusedAtDepth result.depth keys := by
  unfold unusedByDepth
  rw [List.mem_filterMap]
  constructor
  · intro h
    rcases h with ⟨⟨depth, keys⟩, hEntry, hResult⟩
    cases depth with
    | zero => cases hResult
    | succ cuts =>
        cases hResult
        exact ⟨keys, SortedMap.get?_eq_some_iff.mpr hEntry, rfl⟩
  · intro h
    rcases h with ⟨keys, hKeys, hResult⟩
    refine ⟨(result.depth + 1, keys), SortedMap.get?_eq_some_iff.mp hKeys, ?_⟩
    exact congrArg some hResult.symm

theorem pairwise_unusedByDepth (depths : SurvivorMap) :
    (unusedByDepth depths).Pairwise fun a b => a.depth < b.depth := by
  unfold unusedByDepth
  apply depths.ascending.filterMap
  intro entry entry' hLess result hResult result' hResult'
  obtain ⟨depth, keys⟩ := entry
  obtain ⟨depth', keys'⟩ := entry'
  cases depth with
  | zero => cases hResult
  | succ cuts =>
      cases depth' with
      | zero => cases hResult'
      | succ cuts' =>
          cases hResult
          cases hResult'
          exact Nat.lt_of_succ_lt_succ hLess

theorem unusedByDepth_eq_iff {depths depths' : SurvivorMap} :
    unusedByDepth depths = unusedByDepth depths' ↔
      ∀ cuts, depths.get? (cuts + 1) = depths'.get? (cuts + 1) := by
  constructor
  · have hSome : ∀ {depths depths' : SurvivorMap}, unusedByDepth depths = unusedByDepth depths' →
        ∀ cuts keys, depths.get? (cuts + 1) = some keys → depths'.get? (cuts + 1) = some keys := by
      intro depths depths' h cuts keys hKeys
      have hResult : unusedAtDepth cuts keys ∈ unusedByDepth depths' :=
        h ▸ mem_unusedByDepth.mpr ⟨keys, hKeys, rfl⟩
      rcases mem_unusedByDepth.mp hResult with ⟨others, hOthers, hEq⟩
      exact unusedAtDepth_inj hEq ▸ hOthers
    intro h cuts
    exact Option.ext fun keys => ⟨hSome h cuts keys, hSome h.symm cuts keys⟩
  · intro h
    have hIrrefl : Std.Irrefl (fun a b : UnusedAtDepth => a.depth < b.depth) :=
      ⟨fun _ => Nat.lt_irrefl _⟩
    have hAntisymm : Std.Antisymm (fun a b : UnusedAtDepth => a.depth < b.depth) :=
      ⟨fun _ _ hLess hGreater => absurd hGreater (Nat.lt_asymm hLess)⟩
    apply (pairwise_unusedByDepth depths).eq_of_mem_iff (pairwise_unusedByDepth depths')
    intro result
    rw [mem_unusedByDepth, mem_unusedByDepth, h]

/-!
# Warnings
-/

theorem anomalyGroups_nil : anomalyGroups [] = [] :=
  rfl

theorem anomalyGroups_of_ne_nil {warnings : List Catalog.Warning} (h : warnings ≠ []) :
    anomalyGroups warnings =
      [⟨.array, sorted (warnings.map fun warning => shownPath warning.path)⟩] := by
  unfold anomalyGroups
  rw [if_neg (by simpa using h)]

/-!
# The whole part
-/

/-- The part tells findings and warnings: what it says of them, and in which order. -/
structure Tells (part : UnusedPart) (findings : UnusedFindings)
    (warnings : List Catalog.Warning) : Prop where
  total : part.total = findings.total
  /-- No depth has two results. -/
  ascending : part.results.Pairwise fun a b => a.depth < b.depth
  /-- A depth has a result iff the map has a set under the depth plus one. -/
  depths : ∀ cuts, (∃ result ∈ part.results, result.depth = cuts) ↔
    ∃ keys, findings.depths.get? (cuts + 1) = some keys
  keys : ∀ result ∈ part.results, ∀ keys, findings.depths.get? (result.depth + 1) = some keys →
    result.keys.Pairwise (fun a b => bytesOf a < bytesOf b) ∧
      ∀ text, text ∈ result.keys ↔
        ∃ key, key ∈ keys ∧ text = key ++ String.join (List.replicate result.depth ".*")
  noWarnings : part.warnings = [] ↔ warnings = []
  /-- In the written report the field for the warnings is missing if there are none. -/
  written : ∃ entries, part.block = .fields entries ∧
    ("warnings" ∈ entries.map (·.1) ↔ warnings ≠ [])
  paths : ∀ group ∈ part.warnings, part.warnings = [group] ∧ group.kind = .array ∧
    group.paths.Perm (warnings.map fun warning => shownPath warning.path) ∧
      group.paths.Pairwise fun a b => bytesOf a ≤ bytesOf b

theorem tells_of (findings : UnusedFindings) (warnings : List Catalog.Warning) :
    Tells (.of findings warnings) findings warnings where
  total := rfl
  ascending := pairwise_unusedByDepth findings.depths
  depths := by
    intro cuts
    constructor
    · intro h
      rcases h with ⟨result, hResult, rfl⟩
      rcases mem_unusedByDepth.mp hResult with ⟨keys, hKeys, _⟩
      exact ⟨keys, hKeys⟩
    · intro h
      rcases h with ⟨keys, hKeys⟩
      exact ⟨unusedAtDepth cuts keys, mem_unusedByDepth.mpr ⟨keys, hKeys, rfl⟩, rfl⟩
  keys := by
    intro result hResult keys hKeys
    rcases mem_unusedByDepth.mp hResult with ⟨others, hOthers, hEq⟩
    cases hKeys.symm.trans hOthers
    rw [hEq]
    refine ⟨(pairwise_keys_unusedAtDepth _ _).imp bytesOf_lt, ?_⟩
    intro text
    rw [mem_keys_unusedAtDepth]
    simp only [starred_eq]
    rfl
  noWarnings := by
    cases warnings with
    | nil => simp [UnusedPart.of, anomalyGroups_nil]
    | cons warning rest => simp [UnusedPart.of, anomalyGroups_of_ne_nil]
  written := by
    refine ⟨_, rfl, ?_⟩
    cases warnings with
    | nil => simp [UnusedPart.of, anomalyGroups_nil]
    | cons warning rest => simp [UnusedPart.of, anomalyGroups_of_ne_nil]
  paths := by
    intro group hGroup
    cases warnings with
    | nil => exact absurd hGroup List.not_mem_nil
    | cons warning rest =>
        cases List.mem_singleton.mp hGroup
        exact ⟨rfl, rfl, sorted_perm _, (pairwise_sorted _).imp bytesOf_le⟩

/--
The part tells everything about its findings and warnings, and loses nothing of the sets that
belong to a pass.
-/
theorem tells_unusedPart (findings : UnusedFindings) (warnings : List Catalog.Warning) :
    Tells (.of findings warnings) findings warnings ∧
      ∀ findings' : UnusedFindings, ∀ warnings' : List Catalog.Warning,
        (UnusedPart.of findings warnings).total = (UnusedPart.of findings' warnings').total ∧
            (UnusedPart.of findings warnings).results =
              (UnusedPart.of findings' warnings').results ↔
          findings.total = findings'.total ∧
            ∀ depth, 1 ≤ depth → findings.depths.get? depth = findings'.depths.get? depth := by
  refine ⟨tells_of findings warnings, ?_⟩
  intro findings' warnings'
  show findings.total = findings'.total ∧
    unusedByDepth findings.depths = unusedByDepth findings'.depths ↔ _
  rw [unusedByDepth_eq_iff]
  refine and_congr_right fun _ => ?_
  constructor
  · intro h depth hDepth
    obtain ⟨cuts, rfl⟩ := Nat.exists_eq_add_of_le' hDepth
    exact h cuts
  · intro h cuts
    exact h (cuts + 1) (Nat.le_add_left 1 cuts)

end Report
end CatalogAudit
