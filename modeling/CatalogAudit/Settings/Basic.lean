import CatalogAudit.Fault
import CatalogAudit.Json.Printer

/-!
# Settings

What an audit of a project looks at and where it puts its report. Paths are kept as they are
written. A catalog and an ignore list need not be named, and without a depth there is no bound.
-/

namespace CatalogAudit

structure Settings where
  sourceRoot : String
  localePath : Option String
  output : String
  maxDepth : Option Nat
  cache : Bool
  ignoredDirs : List String
  sourcePatterns : List String
  ignoreKeys : Option String
  localesDir : String
  baseLocale : String
  untranslatedOutput : String
deriving DecidableEq, Repr

namespace Settings

def default : Settings where
  sourceRoot := "./"
  localePath := none
  output := "unused_keys.yml"
  maxDepth := none
  cache := true
  ignoredDirs := [".git", "node_modules", "dist", "build", "coverage"]
  sourcePatterns := ["*.ts", "*.html"]
  ignoreKeys := none
  localesDir := "./locales"
  baseLocale := "en"
  untranslatedOutput := "missing_translations.yml"

instance : Inhabited Settings := ⟨default⟩

/-!
# Written form
-/

def optional (write : α → Json) : Option α → Json
  | some value => write value
  | none => .null

def texts (values : List String) : Json :=
  .array (values.map .string)

def toJson (settings : Settings) : Json :=
  .object [
    ("sourceRoot", .string settings.sourceRoot),
    ("localePath", optional .string settings.localePath),
    ("output", .string settings.output),
    ("maxDepth", optional (fun n => .number (.natural n)) settings.maxDepth),
    ("cache", .bool settings.cache),
    ("ignoredDirs", texts settings.ignoredDirs),
    ("sourcePatterns", texts settings.sourcePatterns),
    ("ignoreKeys", optional .string settings.ignoreKeys),
    ("localesDir", .string settings.localesDir),
    ("baseLocale", .string settings.baseLocale),
    ("untranslatedOutput", .string settings.untranslatedOutput)]

/-- The text of a settings file, without the line feed at its end. -/
def text (settings : Settings) : String :=
  settings.toJson.indented

/-!
# Validity
-/

def localeCodeLength : Nat := 2

def checkLocaleCode (code : String) : Except Fault Unit :=
  if code.length = localeCodeLength then .ok () else .error (.of (.localeCode code))

def checkPattern (pattern : String) : Except Fault Unit :=
  match withContext .pattern (.settingsPattern pattern) (Glob.parse pattern) with
  | .ok _ => .ok ()
  | .error fault => .error fault

def check (settings : Settings) : Except Fault Unit := do
  settings.sourcePatterns.forM checkPattern
  match checkLocaleCode settings.baseLocale with
  | .ok () => return
  | .error fault => .error (fault.within .settingsLocale)

end Settings
end CatalogAudit
