import CatalogAudit.Audit.Outcome

/-!
# The reach of a run

The places on the disk that a run looks at, and the files that it may write. Nothing else on the
disk has to be known to run a command.
-/

namespace CatalogAudit
namespace Audit

open CommandLine (Command)

/-- How much of a directory is looked at, apart from its own entry. -/
inductive Extent where
  | entry
  | children
  /-- All that is below, except what is inside of directories with these names. -/
  | tree (ignoredDirs : List String)
deriving DecidableEq, Repr

structure Place where
  path : Path
  extent : Extent
deriving DecidableEq, Repr

def entries (paths : List Path) : List Place :=
  paths.map (⟨·, .entry⟩)

def settingsPlaces (start : Path) : List Place :=
  (Path.ancestors start).flatMap fun directory =>
    entries [Path.join directory Settings.fileName, Path.join directory Settings.repositoryMark]

def writtenPaths (project : Project) : Command → List Path
  | .unused arguments =>
      [project.pathOr arguments.output project.settings.output,
        Path.join (project.pathOr arguments.path project.settings.sourceRoot) MatchCache.fileName]
  | .untranslated arguments =>
      [project.pathOr arguments.output project.settings.untranslatedOutput]
  | .init => [Settings.starterPath]

/-- The places that a command looks at once the settings are known. -/
def commandPlaces (project : Project) (command : Command) : List Place :=
  let settings := project.settings
  let read : List Place := match command with
    | .unused arguments =>
        ⟨project.pathOr arguments.path settings.sourceRoot, .tree settings.ignoredDirs⟩ ::
          entries ((UnusedKeys.catalogPath project arguments).toOption.toList ++
            (UnusedKeys.ignoreListPath? project arguments).toList)
    | .untranslated arguments => [⟨project.pathOr arguments.path settings.localesDir, .children⟩]
    | .init => []
  read ++ entries (writtenPaths project command)

end Audit
end CatalogAudit
