import CatalogAudit.Catalog.IgnoreList
import CatalogAudit.Proofs.Usage.ClosedForm

/-!
# Ignored keys

An ignore list is applied once, to the full keys. It still acts on every depth: what is left of a
key begins as the key does, so no cut of a key that is kept is ignored. And it acts on nothing else,
since a cut is reported as long as it comes from any key that is kept.
-/

namespace CatalogAudit

namespace IgnoreList

def Ignores (prefixes : List String) (key : String) : Prop :=
  ∃ p ∈ prefixes, p.toList <+: key.toList

theorem isIgnored_iff {prefixes : List String} {key : String} :
    isIgnored prefixes key = true ↔ Ignores prefixes key := by
  unfold isIgnored Ignores
  simp [List.any_eq_true]

theorem mem_apply {prefixes : List String} {keys : KeySet} {key : String} :
    key ∈ apply prefixes keys ↔ key ∈ keys ∧ ¬Ignores prefixes key := by
  unfold apply
  rw [SortedSet.mem_filter, ← isIgnored_iff, Bool.not_eq_true', Bool.not_eq_true]

theorem ignoredCount_add_size (prefixes : List String) (keys : KeySet) :
    ignoredCount prefixes keys + (apply prefixes keys).size = keys.size :=
  Nat.sub_add_cancel (List.length_filter_le _ _)

theorem ignores_of_ignores_dropLast {prefixes : List String} {key : String}
    (h : Ignores prefixes (KeyPath.dropLast key)) : Ignores prefixes key := by
  rcases h with ⟨p, hPrefix, hBegins⟩
  rw [KeyPath.toList_dropLast] at hBegins
  exact ⟨p, hPrefix, hBegins.trans (KeyPath.initial_isPrefix key.toList)⟩

end IgnoreList

namespace Usage

open IgnoreList (Ignores)

theorem ignores_of_ignores_cut {prefixes : List String} {depth : Nat} {key : String}
    (h : Ignores prefixes (cut depth key)) : Ignores prefixes key := by
  induction depth with
  | zero => exact h
  | succ depth ih =>
      rw [cut_succ] at h
      exact ih (IgnoreList.ignores_of_ignores_dropLast h)

section Kept

variable {maxDepth : DepthBound} {keys : KeySet} {prefixes : List String}
  {files : List SourceFile} {depth : Nat} {text : String}

/-!
# What is reported without a cache
-/

theorem reports_run_none_iff :
    Reports (run maxDepth keys files none).findings (depth + 1) text ↔
      maxDepth.admits depth = true ∧ IsUnmatched keys files depth text := by
  have hStart : HoldsCandidates keys files 0 keys := fun _ => Iff.rfl
  have hLength : depth < (passes maxDepth files 0 keys none).survivors.length ↔
      maxDepth.admits (0 + depth) = true ∧ IsReached keys files (0 + depth) :=
    lt_length_survivors_iff hStart depth
  rw [Nat.zero_add] at hLength
  unfold Reports
  rw [get?_depths_run]
  constructor
  · intro h
    rcases h with ⟨survivors, hPlace, hText⟩
    have hUnmatched := (mem_getElem?_survivors_iff hStart hPlace text).mp hText
    rw [Nat.zero_add] at hUnmatched
    exact ⟨(hLength.mp (List.getElem?_eq_some_iff.mp hPlace).1).1, hUnmatched⟩
  · intro h
    rcases h with ⟨hAdmits, hUnmatched⟩
    have hReached : IsReached keys files depth :=
      isReached_iff.mpr ⟨text, (isUnmatched_iff.mp hUnmatched).1⟩
    have hPlace := List.getElem?_eq_getElem (hLength.mpr ⟨hAdmits, hReached⟩)
    refine ⟨_, hPlace, (mem_getElem?_survivors_iff hStart hPlace text).mpr ?_⟩
    rw [Nat.zero_add]
    exact hUnmatched

/-!
# Keys that are kept
-/

/-- Among the keys that come to the same text, one that is kept is enough. -/
theorem isUnmatched_apply_iff :
    IsUnmatched (IgnoreList.apply prefixes keys) files depth text ↔
      IsUnmatched keys files depth text ∧
        ∃ key ∈ keys, ¬Ignores prefixes key ∧ cut depth key = text := by
  constructor
  · intro h
    rcases h with ⟨⟨key, hKept, hCut⟩, hNonempty, hAbsent⟩
    rcases IgnoreList.mem_apply.mp hKept with ⟨hKey, hNot⟩
    exact ⟨⟨⟨key, hKey, hCut⟩, hNonempty, hAbsent⟩, key, hKey, hNot, hCut.symm⟩
  · intro h
    rcases h with ⟨⟨_, hNonempty, hAbsent⟩, key, hKey, hNot, hCut⟩
    exact ⟨⟨key, IgnoreList.mem_apply.mpr ⟨hKey, hNot⟩, hCut.symm⟩, hNonempty, hAbsent⟩

theorem not_ignores_of_isUnmatched
    (h : IsUnmatched (IgnoreList.apply prefixes keys) files depth text) :
    ¬Ignores prefixes text := by
  rcases (isUnmatched_apply_iff.mp h).2 with ⟨key, _, hNot, rfl⟩
  exact fun hIgnored => hNot (ignores_of_ignores_cut hIgnored)

end Kept

/--
With an ignore list no depth reports an ignored text. A text is reported at a depth exactly if it is
reported there without the list and is a cut of some key that is kept. The keys that are left out
are as many as the total is smaller.
-/
theorem reports_run_apply (maxDepth : DepthBound) (keys : KeySet) (prefixes : List String)
    (files : List SourceFile) :
    let all := (run maxDepth keys files none).findings
    let kept := (run maxDepth (IgnoreList.apply prefixes keys) files none).findings
    (∀ depth text, Reports kept depth text → ¬Ignores prefixes text) ∧
      (∀ depth text, Reports kept (depth + 1) text ↔
        Reports all (depth + 1) text ∧
          ∃ key ∈ keys, ¬Ignores prefixes key ∧ cut depth key = text) ∧
      IgnoreList.ignoredCount prefixes keys + kept.total = keys.size := by
  intro all kept
  refine ⟨?_, ?_, ?_⟩
  · intro depth text h
    rcases exists_survivors_of_reports h with ⟨place, _, rfl, _⟩
    exact not_ignores_of_isUnmatched (reports_run_none_iff.mp h).2
  · intro depth text
    rw [reports_run_none_iff, reports_run_none_iff, isUnmatched_apply_iff, and_assoc]
  · exact IgnoreList.ignoredCount_add_size prefixes keys

end Usage
end CatalogAudit
