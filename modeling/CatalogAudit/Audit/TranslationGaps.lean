import CatalogAudit.Audit.Work
import CatalogAudit.CommandLine.Arguments
import CatalogAudit.Report.Document
import CatalogAudit.Settings.Project

/-!
# The audit of untranslated keys

The catalogs of all locales in a directory are compared with that of the base locale.
-/

namespace CatalogAudit
namespace Audit

open CommandLine (UntranslatedArguments)

structure GapsResult where
  gaps : Locale.TranslationGaps
  localeCount : Nat
  output : Path

namespace TranslationGaps

open Work

def audit (time : String) (arguments : UntranslatedArguments) : Work GapsResult := do
  let project ← look none Project.load
  let settings := project.settings
  let directory := project.pathOr arguments.path settings.localesDir
  let output := project.pathOr arguments.output settings.untranslatedOutput
  let base := arguments.baseLocale.getD settings.baseLocale
  require none (Settings.checkLocaleCode base)
  let locales ← look (some .locales) fun disk => Locale.loadAll disk directory
  note (.extractedLocales locales.size)
  let gaps ← require (some .locales) (Locale.gaps locales base)
  note (.foundUntranslated gaps.size)
  let text := Report.gapsText (.at time) gaps
  change (some .report) fun disk => Report.write disk output text
  note (.reportReady output)
  return ⟨gaps, locales.size, output⟩

end TranslationGaps
end Audit
end CatalogAudit
