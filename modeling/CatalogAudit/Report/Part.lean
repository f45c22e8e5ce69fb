import CatalogAudit.Catalog.Flatten
import CatalogAudit.Locale.Gaps
import CatalogAudit.Usage.Passes

/-!
# The parts of a report

A report tells what an audit has found. The part on unused keys has one result for each depth, which
is the number of segments that have been cut, and shows every cut segment as a star. The part on
untranslated keys has one result for each key.
-/

namespace CatalogAudit
namespace Report

/-!
# Unused keys
-/

structure AnomalyGroup where
  kind : Catalog.Anomaly
  paths : List String
deriving DecidableEq, Repr

structure UnusedAtDepth where
  depth : Nat
  keys : List String
deriving DecidableEq, Repr

structure UnusedPart where
  total : Nat
  warnings : List AnomalyGroup
  results : List UnusedAtDepth
deriving DecidableEq, Repr

/-- Texts in ascending order, repeated ones kept. -/
def sorted (texts : List String) : List String :=
  texts.mergeSort (fun a b => decide (a ≤ b))

/-- The path of a catalog node as the report shows it. -/
def shownPath (path : String) : String :=
  if path = "" then "(root)" else path

/-- All warnings are about arrays, so there is one group, or none if there are no warnings. -/
def anomalyGroups (warnings : List Catalog.Warning) : List AnomalyGroup :=
  if warnings.isEmpty then []
  else [⟨.array, sorted (warnings.map fun warning => shownPath warning.path)⟩]

def starSuffix (cuts : Nat) : List Char :=
  (List.replicate cuts ['.', '*']).flatten

/-- A key with a star for every segment that has been cut. -/
def starred (cuts : Nat) (key : String) : String :=
  String.ofList (key.toList ++ starSuffix cuts)

def unusedAtDepth (cuts : Nat) (keys : KeySet) : UnusedAtDepth :=
  ⟨cuts, sorted (keys.toList.map (starred cuts))⟩

/-- The results of the passes. A set under depth zero belongs to no pass. -/
def unusedByDepth (depths : SurvivorMap) : List UnusedAtDepth :=
  depths.entries.filterMap fun entry =>
    match entry.1 with
    | 0 => none
    | cuts + 1 => some (unusedAtDepth cuts entry.2)

def UnusedPart.of (findings : UnusedFindings) (warnings : List Catalog.Warning) : UnusedPart :=
  ⟨findings.total, anomalyGroups warnings, unusedByDepth findings.depths⟩

/-!
# Untranslated keys
-/

structure Gap where
  key : String
  missing : List String
deriving DecidableEq, Repr

structure GapsPart where
  total : Nat
  results : List Gap
deriving DecidableEq, Repr

def GapsPart.of (gaps : Locale.TranslationGaps) : GapsPart :=
  ⟨gaps.size, gaps.entries.map fun entry => ⟨entry.1, entry.2.toList⟩⟩

end Report
end CatalogAudit
