import CatalogAudit.Audit.Work
import CatalogAudit.Catalog.IgnoreList
import CatalogAudit.CommandLine.Arguments
import CatalogAudit.Report.Document
import CatalogAudit.Settings.Project
import CatalogAudit.Source.Scan
import CatalogAudit.Usage.CacheFile

/-!
# The audit of unused keys

The keys of one catalog are looked for in the source files. What has been found in each file is
remembered for the next time, and the report is written last.
-/

namespace CatalogAudit
namespace Audit

open CommandLine (UnusedArguments)
open FileTree (Disk)

structure UnusedResult where
  findings : UnusedFindings
  warnings : List Catalog.Warning
  filesChecked : Nat
  output : Path

namespace UnusedKeys

open Work

def loadProject : Work Project :=
  look none Project.load

def catalogPath (project : Project) (arguments : UnusedArguments) : Except Fault Path :=
  match arguments.localePath, project.settings.localePath with
  | some path, _ => .ok path
  | none, some path => .ok (project.resolve path)
  | none, none => .error (.of .catalogRequired)

def ignoreListPath? (project : Project) (arguments : UnusedArguments) : Option Path :=
  arguments.ignore <|> project.settings.ignoreKeys.map project.resolve

def chooseDepth (project : Project) (arguments : UnusedArguments) : Work DepthBound := do
  let (depth, fault) := DepthBound.choose arguments.depth project.settings.maxDepth
  if let some fault := fault then note (.depthReplaced fault)
  if depth = .unbounded then note .fullDepth
  return depth

/-- The keys that the ignore list does not exclude. A list that cannot be read excludes none. -/
def withoutIgnored (path : Option Path) (keys : KeySet) : Work KeySet := do
  match path with
  | none => return keys
  | some path =>
      match IgnoreList.read (← get).disk path with
      | .ok prefixes =>
          note (.ignoredKeys (IgnoreList.ignoredCount prefixes keys))
          return IgnoreList.apply prefixes keys
      | .error fault =>
          note (.ignoreListSkipped fault)
          return keys

/-- The source files. What the audit writes is left out, the report as well as the cache. -/
def loadSources (settings : Settings) (root output : Path) : Work (List SourceFile) := do
  let paths ← look (some .source) fun disk => SourceScan.find disk {
    root := root
    ignoredDirs := settings.ignoredDirs
    patterns := settings.sourcePatterns
    excluded := [Path.join root MatchCache.fileName, output] }
  look (some .source) fun disk => SourceFile.loadAll disk root paths

def loadCache (isEnabled : Bool) (root : Path) : Work (Option MatchCache) := do
  if isEnabled then
    let disk := (← get).disk
    noteEvents (MatchCache.loadEvents disk root)
    let cache := MatchCache.load disk root
    noteEvents [.cacheReady cache.size]
    return some cache
  else
    noteEvents [.cacheReady 0]
    return none

def saveCache (files : List SourceFile) : Option MatchCache → Work Unit
  | none => return
  | some cache => do
      noteEvents (cache.keepEvents files)
      let cache := cache.keepOnly files
      change (some .cache) cache.save
      note (.cacheSaved cache.path)

def audit (time : String) (arguments : UnusedArguments) : Work UnusedResult := do
  let project ← loadProject
  let settings := project.settings
  let root := project.pathOr arguments.path settings.sourceRoot
  let output := project.pathOr arguments.output settings.output
  let catalog ← require (some .catalog) (catalogPath project arguments)
  let depth ← chooseDepth project arguments
  let isCached := settings.cache && !arguments.noCache
  if !isCached then note .cacheDisabled
  let flat ← look (some .catalog) fun disk => Catalog.load disk catalog
  note (.extractedKeys flat.keys.size)
  let keys ← withoutIgnored (ignoreListPath? project arguments) flat.keys
  let files ← loadSources settings root output
  note (.foundFiles files.length)
  let cache ← loadCache isCached root
  let run := Usage.run depth keys files cache
  noteEvents run.events
  note (.checkedFiles files.length)
  saveCache files run.cache
  let text := Report.unusedText (.at time) run.findings flat.warnings
  change (some .report) fun disk => Report.write disk output text
  note (.reportReady output)
  return ⟨run.findings, flat.warnings, files.length, output⟩

end UnusedKeys
end Audit
end CatalogAudit
