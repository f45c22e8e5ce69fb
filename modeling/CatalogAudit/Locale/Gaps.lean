import CatalogAudit.Locale.Messages
import CatalogAudit.Ordered.Set

/-!
# Untranslated keys

A key of the base locale is untranslated in another locale if it has no message there, or the same
message. Keys that are translated everywhere do not show.
-/

namespace CatalogAudit
namespace Locale

abbrev LocaleSet := SortedSet String

/-- The locales in which a key is untranslated, for each key that is so in some locale. -/
abbrev TranslationGaps := SortedMap String LocaleSet

def isTranslated (messages : Messages) (key baseMessage : String) : Bool :=
  match messages.get? key with
  | some message => message ≠ baseMessage
  | none => false

def missingIn (locales : Locales) (base key message : String) : LocaleSet :=
  .ofList ((locales.filter fun locale messages =>
    locale ≠ base && !isTranslated messages key message).keys)

def gaps (locales : Locales) (base : String) : Except Fault TranslationGaps :=
  match locales.get? base with
  | some messages =>
      .ok ((messages.mapValues (missingIn locales base)).filter fun _ missing => !missing.isEmpty)
  | none => .error (.of (.baseLocaleMissing base))

end Locale
end CatalogAudit
