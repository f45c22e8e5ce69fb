import CatalogAudit.Audit.Failure
import CatalogAudit.Audit.Progress
import CatalogAudit.FileTree.Resolve

/-!
# Work

A run goes through steps that look at the disk, change it, and tell about their progress. The first
failure ends the run, and what has been changed and told before stays.
-/

namespace CatalogAudit
namespace Audit

open FileTree (Disk)

structure Session where
  disk : Disk
  notes : List Note

abbrev Work (α : Type) := ExceptT Failure (StateM Session) α

namespace Work

def note (progress : Progress) : Work Unit :=
  modify fun session => { session with notes := session.notes ++ [.progress progress] }

def noteEvents (events : List Event) : Work Unit :=
  modify fun session => { session with notes := session.notes ++ events.map .event }

def require (advice : Option Advice) : Except Fault α → Work α
  | .ok value => pure value
  | .error fault => throw ⟨fault, advice⟩

def look (advice : Option Advice) (question : Disk → Except Fault α) : Work α := do
  require advice (question (← get).disk)

def change (advice : Option Advice) (action : Disk → Except Fault Disk) : Work Unit := do
  let disk ← look advice action
  modify fun session => { session with disk := disk }

end Work
end Audit
end CatalogAudit
