import CatalogAudit.Fault

/-!
# Failures

A failure ends a run. Where the arguments are likely to blame it comes with a hint, and then all
its causes are shown on one line.
-/

namespace CatalogAudit
namespace Audit

inductive Advice where
  | catalog
  | source
  | report
  | cache
  | locales
deriving DecidableEq, Repr

def Advice.text : Advice → String
  | .catalog =>
      "Did you specify the correct path to the single language JSON catalog " ++
        "(--locale-path or 'localePath')?"
  | .source => "Did you specify the correct path to the source files (--path)?"
  | .report => "Please check if the output path is correct (--output)"
  | .cache => "Check that the source directory is writable, or disable the cache (--no-cache)"
  | .locales => "Did you specify the directory holding the <locale>.json catalogs (--path)?"

structure Failure where
  fault : Fault
  advice : Option Advice
deriving DecidableEq, Repr

/-- What the error line shows, given the messages from the outermost context to the cause. -/
def shownMessage (advice : Option Advice) (chain : List String) : String :=
  match advice, chain with
  | some _, messages => ": ".intercalate messages
  | none, message :: _ => message
  | none, [] => ""

def Failure.message (failure : Failure) : String :=
  shownMessage failure.advice failure.fault.chain

end Audit
end CatalogAudit
