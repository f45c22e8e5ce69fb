import CatalogAudit.Audit.TranslationGaps
import CatalogAudit.Audit.UnusedKeys
import CatalogAudit.Settings.Starter

/-!
# Outcomes

A run ends with a summary or a failure. Findings count for the exit status only if the run is
strict.
-/

namespace CatalogAudit
namespace Audit

open CommandLine (Command)
open FileTree (Disk)

inductive Summary where
  | unused (summary : UnusedResult)
  | untranslated (summary : GapsResult)
  | settingsCreated (path : Path)

def Summary.findingCount : Summary → Nat
  | .unused summary => summary.findings.literalCount
  | .untranslated summary => summary.gaps.size
  | .settingsCreated _ => 0

def isStrict : Command → Bool
  | .unused arguments => arguments.strict
  | .untranslated arguments => arguments.strict
  | .init => false

inductive ExitStatus where
  | success
  | findings
  | failure
deriving DecidableEq, Repr

def ExitStatus.code : ExitStatus → UInt8
  | .success => 0
  | .findings => 1
  | .failure => 2

structure Outcome where
  disk : Disk
  notes : List Note
  result : Except Failure Summary
  status : ExitStatus

def statusOf (strict : Bool) : Except Failure Summary → ExitStatus
  | .ok summary => if strict && 0 < summary.findingCount then .findings else .success
  | .error _ => .failure

def perform (time : String) : Command → Work Summary
  | .unused arguments => .unused <$> UnusedKeys.audit time arguments
  | .untranslated arguments => .untranslated <$> TranslationGaps.audit time arguments
  | .init => do
      Work.change none Settings.writeStarter
      return .settingsCreated Settings.starterPath

/-- Runs a command on a disk. The time is the one that the report shows. -/
def run (time : String) (disk : Disk) (command : Command) : Outcome :=
  let (result, session) := (perform time command).run.run ⟨disk, []⟩
  ⟨session.disk, session.notes, result, statusOf (isStrict command) result⟩

end Audit
end CatalogAudit
