import CatalogAudit.FileTree.Path

/-!
# Events

What an audit tells about its progress to those who ask for details. An event has a level, the
part of the program that it comes from, and a line of text.
-/

namespace CatalogAudit

inductive Level where
  | error
  | warn
  | info
  | debug
  | trace
deriving DecidableEq, Repr

/-- Levels from the most urgent to the most detailed. -/
def Level.rank : Level → Nat
  | .error => 1
  | .warn => 2
  | .info => 3
  | .debug => 4
  | .trace => 5

inductive Event where
  | cacheLoaded (path : Path) (records : Nat)
  | cacheUnusable (path : Path) (reason : String)
  | cacheReady (records : Nat)
  | contentChanged (name : String)
  | cachePruned (dropped : Nat)
  | fileScanned (name : String) (cached found : Nat)
  | passFinished (depth candidates survivors : Nat)
deriving DecidableEq, Repr

namespace Event

def level : Event → Level
  | .fileScanned .. => .trace
  | _ => .debug

/-- The part of the program that an event comes from, as filters name it. -/
def target : Event → String
  | .cacheReady .. => "i18n_validator::cli::commands::unused"
  | .fileScanned .. => "i18n_validator::core::checker"
  | .passFinished .. => "i18n_validator::core::checker"
  | _ => "i18n_validator::core::cache"

def text : Event → String
  | .cacheLoaded path records =>
      "loaded cache path=" ++ path.shown ++ " records=" ++ toString records
  | .cacheUnusable path reason => "starting with empty cache: " ++ reason ++ " path=" ++ path.shown
  | .cacheReady records => "cache ready records=" ++ toString records
  | .contentChanged name =>
      "content changed, dropping cached matches path=" ++ Text.quoted name
  | .cachePruned dropped => "pruned cache records dropped=" ++ toString dropped
  | .fileScanned name cached found =>
      "scanned file path=" ++ name ++ " cached=" ++ toString cached ++ " found=" ++ toString found
  | .passFinished depth candidates survivors =>
      "finished pass depth=" ++ toString depth ++ " candidates=" ++ toString candidates ++
        " survivors=" ++ toString survivors

end Event
end CatalogAudit
