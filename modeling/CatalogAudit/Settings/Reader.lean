import CatalogAudit.Json.Record
import CatalogAudit.Settings.Basic

/-!
# Reading settings

A settings file gives some of the fields, and the others keep their defaults. Members of other
names do not count.
-/

namespace CatalogAudit
namespace Settings

/-- Settings that are being read, with the names of the fields that have been given. -/
structure Draft where
  settings : Settings
  given : List String

def field (name : String) (read : Json.Reader β) (put : Settings → β → Settings) :
    Json.Field Draft where
  name := name
  isGiven draft := draft.given.contains name
  read draft c := do
    let (value, c) ← read c
    return (⟨put draft.settings value, name :: draft.given⟩, c)

def fields : List (Json.Field Draft) :=
  [field "sourceRoot" Json.readText fun s value => { s with sourceRoot := value },
    field "localePath" (Json.readOptional Json.readText) fun s value =>
      { s with localePath := value },
    field "output" Json.readText fun s value => { s with output := value },
    field "maxDepth" (Json.readOptional Json.readSize) fun s value => { s with maxDepth := value },
    field "cache" Json.readFlag fun s value => { s with cache := value },
    field "ignoredDirs" (Json.readList Json.readText) fun s value =>
      { s with ignoredDirs := value },
    field "sourcePatterns" (Json.readList Json.readText) fun s value =>
      { s with sourcePatterns := value },
    field "ignoreKeys" (Json.readOptional Json.readText) fun s value =>
      { s with ignoreKeys := value },
    field "localesDir" Json.readText fun s value => { s with localesDir := value },
    field "baseLocale" Json.readText fun s value => { s with baseLocale := value },
    field "untranslatedOutput" Json.readText fun s value => { s with untranslatedOutput := value }]

def shape : Json.Shape Draft Settings where
  expected := "struct Config"
  blank := ⟨default, []⟩
  fields := fields
  complete draft := .ok draft.settings
  completeShort _ draft := .ok draft.settings

def parse (bytes : Utf8.Bytes) : Except Json.Fault Settings :=
  Json.decode shape.read bytes

end Settings
end CatalogAudit
