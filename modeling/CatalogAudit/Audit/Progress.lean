import CatalogAudit.Fault
import CatalogAudit.Usage.Depth
import CatalogAudit.Usage.Event

/-!
# Progress

What a run tells while it goes on. Steps have been done, infos explain how the run is done, and
warnings tell what is done without. Events are told only to those who ask for details.
-/

namespace CatalogAudit
namespace Audit

inductive Progress where
  | extractedKeys (count : Nat)
  | extractedLocales (count : Nat)
  | fullDepth
  | depthReplaced (fault : Fault)
  | cacheDisabled
  | ignoredKeys (count : Nat)
  | ignoreListSkipped (fault : Fault)
  | foundFiles (count : Nat)
  | checkedFiles (count : Nat)
  | cacheSaved (path : Path)
  | foundUntranslated (count : Nat)
  | reportReady (path : Path)
deriving DecidableEq, Repr

inductive Weight where
  | step
  | info
  | warning
deriving DecidableEq, Repr

namespace Progress

def weight : Progress → Weight
  | .fullDepth => .info
  | .cacheDisabled => .info
  | .ignoredKeys _ => .info
  | .depthReplaced _ => .warning
  | .ignoreListSkipped _ => .warning
  | _ => .step

def text : Progress → String
  | .extractedKeys count => "Extracted " ++ toString count ++ " keys"
  | .extractedLocales count => "Extracted " ++ toString count ++ " locales"
  | .fullDepth => "Running at full depth"
  | .depthReplaced fault =>
      fault.message ++ ". Please check if the depth is a valid number. Using default depth of " ++
        toString DepthBound.fallback
  | .cacheDisabled => "Cache is disabled"
  | .ignoredKeys count => "Ignored " ++ toString count ++ " keys"
  | .ignoreListSkipped fault => fault.fullMessage ++ ", skipping"
  | .foundFiles count => "Found " ++ toString count ++ " source files"
  | .checkedFiles count => "Checked " ++ toString count ++ " files"
  | .cacheSaved path => "Cache saved at " ++ path.shown
  | .foundUntranslated count => "Found " ++ toString count ++ " untranslated keys"
  | .reportReady path => "Report is ready: " ++ path.shown

end Progress

inductive Note where
  | progress (progress : Progress)
  | event (event : Event)
deriving DecidableEq, Repr

end Audit
end CatalogAudit
