import CatalogAudit.Report.Part
import CatalogAudit.Yaml.Block

/-!
# Report documents

A report is a document with two parts: who has written it and when, and the part with the
findings. Warnings are left out if there are none.
-/

namespace CatalogAudit
namespace Report

open Yaml (Block)

structure Header where
  tool : String
  version : String
  generatedAt : String
deriving DecidableEq, Repr

def toolName : String := "i18n-validator"

def toolVersion : String := "0.1.0"

def Header.at (time : String) : Header :=
  ⟨toolName, toolVersion, time⟩

/-!
# Blocks of the parts
-/

def textItems (texts : List String) : Block :=
  .items (texts.map .text)

def Header.block (header : Header) : Block :=
  .fields [("tool", .text header.tool), ("version", .text header.version),
    ("generatedAt", .text header.generatedAt)]

def AnomalyGroup.block (group : AnomalyGroup) : Block :=
  .fields [("kind", .text group.kind.name), ("paths", textItems group.paths)]

def UnusedAtDepth.block (result : UnusedAtDepth) : Block :=
  .fields [("depth", .number result.depth), ("keys", textItems result.keys)]

def UnusedPart.block (part : UnusedPart) : Block :=
  let warnings : List (String × Block) :=
    if part.warnings.isEmpty then [] else [("warnings", .items (part.warnings.map (·.block)))]
  .fields (("total", .number part.total) :: warnings ++
    [("results", .items (part.results.map (·.block)))])

def Gap.block (result : Gap) : Block :=
  .fields [("key", .text result.key), ("missing", textItems result.missing)]

def GapsPart.block (part : GapsPart) : Block :=
  .fields [("total", .number part.total), ("results", .items (part.results.map (·.block)))]

/-!
# Documents
-/

def unusedText (header : Header) (findings : UnusedFindings) (warnings : List Catalog.Warning) :
    String :=
  Yaml.document [("meta", header.block), ("unused", (UnusedPart.of findings warnings).block)]

def gapsText (header : Header) (gaps : Locale.TranslationGaps) : String :=
  Yaml.document [("meta", header.block), ("untranslated", (GapsPart.of gaps).block)]

def write (disk : FileTree.Disk) (path : Path) (text : String) : Except Fault FileTree.Disk :=
  withContext .file (.writeReport path) (disk.write path (bytesOf text))

end Report
end CatalogAudit
