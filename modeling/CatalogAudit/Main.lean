import CatalogAudit.Audit.Reach
import CatalogAudit.CommandLine.Help
import CatalogAudit.Console.EventFilter
import CatalogAudit.Console.Lines
import Std.Time.DateTime

/-!
# The program

The part of the disk that a run can reach is read into memory, the command is run on it, and the
files that have changed are written back. Here paths are texts. All decisions are made elsewhere.
-/

namespace CatalogAudit
namespace Program

open Audit (Extent Place)
open FileTree (Disk Location Name Node)

/-!
# Reading the disk
-/

def pathOf (location : Location) : String :=
  (FileTree.pathTo location).shown

inductive Kind where
  | file
  | link
  | directory

def kind? (location : Location) : IO (Option Kind) := do
  let directory := pathOf location.dropLast
  let name := location.getLastD []
  let entry : IO.FS.DirEntry := ⟨directory, Path.shown name⟩
  match ← entry.path.symlinkMetadata.toBaseIO with
  | .error _ => return none
  | .ok metadata =>
      match metadata.type with
      | .dir => return some .directory
      | .symlink => return some .link
      | _ => return some .file

def namesIn (location : Location) : IO (List Name) := do
  let entry : IO.FS.DirEntry := ⟨pathOf location, "."⟩
  return (← entry.path.readDir).toList.map (bytesOf ·.fileName)

/-- The absolute path that a link leads to, or a name that nothing has if it leads nowhere. -/
def targetOf (location : Location) : IO Path := do
  match ← (IO.FS.realPath (pathOf location)).toBaseIO with
  | .ok target => return bytesOf target.toString
  | .error _ => return FileTree.pathTo location ++ bytesOf ".target"

def withDirectory (tree : Node) (location : Location) (name : Name) : Node :=
  match tree.at? (location ++ [name]) with
  | some (.directory _) => tree
  | _ => tree.put location name (.directory [])

mutual

partial def record (tree : Node) (location : Location) (extent : Extent) :
    List Name → IO Node
  | [] => recordInside tree location extent
  | part :: parts => do
      if part = [] || part = [Path.dot] then record tree location extent parts
      else if part = [Path.dot, Path.dot] then record tree location.dropLast extent parts
      else
        let here := location ++ [part]
        match ← kind? here with
        | none => return tree
        | some .file =>
            let content ← IO.FS.readBinFile (pathOf here)
            return tree.put location part (.file content.toList)
        | some .directory => record (withDirectory tree location part) here extent parts
        | some .link =>
            let target ← targetOf here
            record (tree.put location part (.link target)) [] extent
              (Path.pieces target ++ parts)

partial def recordInside (tree : Node) (location : Location) (extent : Extent) : IO Node := do
  match extent with
  | .entry => return tree
  | .children =>
      (← namesIn location).foldlM (fun tree name => record tree location .entry [name]) tree
  | .tree ignoredDirs =>
      (← namesIn location).foldlM (fun tree name =>
        let inside : Extent := if SourceScan.isIgnored ignoredDirs name then .entry else extent
        record tree location inside [name]) tree

end

def recordPlaces (disk : Disk) (places : List Place) : IO Disk :=
  places.foldlM (fun disk place => do
    let path := Path.join disk.cwdPath place.path
    return { disk with top := ← record disk.top [] place.extent (Path.pieces path) }) disk

/-!
# Running
-/

def writeChanges (before after : Disk) (paths : List Path) : IO Unit := do
  for path in paths do
    if let .ok content := after.readBytes path then
      if before.readBytes path |>.toOption |>.all (· != content) then
        IO.FS.writeBinFile path.shown ⟨content.toArray⟩

def padded (width n : Nat) : String :=
  let digits := toString n
  String.ofList (List.replicate (width - digits.length) '0') ++ digits

def timeText : IO String := do
  let now := Std.Time.DateTime.ofTimestampWithZone (← Std.Time.Timestamp.now) .UTC
  let date := padded 4 now.year.toInt.toNat ++ "-" ++ padded 2 now.month.val.toNat ++ "-" ++
    padded 2 now.day.val.toNat
  let time := padded 2 now.hour.val.toNat ++ ":" ++ padded 2 now.minute.val.toNat ++ ":" ++
    padded 2 now.second.val.toNat
  return date ++ "T" ++ time ++ "Z"

/-- Colors are forced, forbidden, or depend on where the output goes. -/
def usesColor : IO Bool := do
  if (← IO.getEnv "CLICOLOR_FORCE").any (· ≠ "0") then return true
  if (← IO.getEnv "NO_COLOR").isSome then return false
  if (← IO.getEnv "CLICOLOR") = some "0" then return false
  (← IO.getStdout).isTty

def timingSwitch : String := "I18N_VALIDATOR_DISABLE_TIMING"

def filterVariable : String := "RUST_LOG"

/-- The location of the working directory, or one that nothing has if the directory is gone. -/
def workingLocation : IO Location := do
  match ← IO.currentDir.toBaseIO with
  | .ok directory => return (Path.pieces (bytesOf directory.toString)).filter (· ≠ [])
  | .error _ => return [[]]

def runCommand (command : CommandLine.Command) : IO UInt32 := do
  let started ← IO.monoMsNow
  let empty : Disk := ⟨.directory [], ← workingLocation⟩
  let settled ← recordPlaces empty (Audit.settingsPlaces empty.cwdPath)
  let project := (Project.load settled).toOption.getD
    ⟨.default, none, settled.cwdPath⟩
  let disk ← recordPlaces settled (Audit.commandPlaces project command)
  let outcome := Audit.run (← timeText) disk command
  writeChanges disk outcome.disk (Audit.writtenPaths project command)
  let colored ← usesColor
  let filter := Console.EventFilter.choose (← IO.getEnv filterVariable) command.isVerbose
  IO.eprint (Console.renderLines colored (Console.errorLines filter.shows outcome))
  IO.print (Console.renderLines colored (Console.outputLines outcome.result))
  if outcome.result.isOk && (← IO.getEnv timingSwitch).isNone then
    let elapsed := (← IO.monoMsNow) - started
    let seconds := toString (elapsed / 1000) ++ "." ++ padded 3 (elapsed % 1000)
    IO.eprint (Console.renderLine false (Console.doneLine seconds))
  return outcome.status.code.toUInt32

def refuse (refusal : CommandLine.Refusal) : IO UInt32 := do
  match refusal with
  | .showHelp => IO.print CommandLine.helpText
  | .showVersion => IO.println (Report.toolName ++ " " ++ Report.toolVersion)
  | _ => IO.eprintln ("error: " ++ refusal.message)
  return refusal.status.toUInt32

end Program
end CatalogAudit

open CatalogAudit in
def main (arguments : List String) : IO UInt32 := do
  match CommandLine.parse arguments with
  | .error refusal => Program.refuse refusal
  | .ok none =>
      IO.print CommandLine.helpText
      return 0
  | .ok (some command) => Program.runCommand command
