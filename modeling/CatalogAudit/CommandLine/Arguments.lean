import CatalogAudit.CommandLine.Switch
import CatalogAudit.FileTree.Path

/-!
# Arguments of the commands

The first argument names a command, and the others are switches of that command. All paths are
given as texts and must not be empty.
-/

namespace CatalogAudit
namespace CommandLine

structure UnusedArguments where
  path : Option Path
  localePath : Option Path
  output : Option Path
  depth : Option String
  noCache : Bool
  ignore : Option Path
  strict : Bool
  verbose : Bool
deriving DecidableEq, Repr

structure UntranslatedArguments where
  path : Option Path
  baseLocale : Option String
  output : Option Path
  strict : Bool
  verbose : Bool
deriving DecidableEq, Repr

inductive Command where
  | unused (arguments : UnusedArguments)
  | untranslated (arguments : UntranslatedArguments)
  | init
deriving DecidableEq, Repr

def Command.isVerbose : Command → Bool
  | .unused arguments => arguments.verbose
  | .untranslated arguments => arguments.verbose
  | .init => false

/-!
# Switches of the commands
-/

def UnusedArguments.blank : UnusedArguments :=
  ⟨none, none, none, none, false, none, false, false⟩

def UntranslatedArguments.blank : UntranslatedArguments :=
  ⟨none, none, none, false, false⟩

def Action.path (given : α → Option Path) (set : α → Path → α) : Action α :=
  .value false (fun collected => (given collected).isSome) fun collected text =>
    set collected (bytesOf text)

def Action.text (given : α → Option String) (set : α → String → α) : Action α :=
  .value true (fun collected => (given collected).isSome) set

def help : Switch α :=
  ⟨"help", some 'h', .refuse .showHelp⟩

def version : Switch α :=
  ⟨"version", some 'V', .refuse .showVersion⟩

def UnusedArguments.switches : List (Switch UnusedArguments) :=
  [⟨"path", some 'p', .path (·.path) fun a value => { a with path := some value }⟩,
    ⟨"locale-path", some 'l',
      .path (·.localePath) fun a value => { a with localePath := some value }⟩,
    ⟨"output", some 'o', .path (·.output) fun a value => { a with output := some value }⟩,
    ⟨"depth", some 'd', .text (·.depth) fun a value => { a with depth := some value }⟩,
    ⟨"no-cache", some 'n', .flag (·.noCache) fun a => { a with noCache := true }⟩,
    ⟨"ignore", some 'i', .path (·.ignore) fun a value => { a with ignore := some value }⟩,
    ⟨"strict", none, .flag (·.strict) fun a => { a with strict := true }⟩,
    ⟨"verbose", some 'v', .flag (·.verbose) fun a => { a with verbose := true }⟩,
    help]

def UntranslatedArguments.switches : List (Switch UntranslatedArguments) :=
  [⟨"path", some 'p', .path (·.path) fun a value => { a with path := some value }⟩,
    ⟨"base-locale", some 'b',
      .text (·.baseLocale) fun a value => { a with baseLocale := some value }⟩,
    ⟨"output", some 'o', .path (·.output) fun a value => { a with output := some value }⟩,
    ⟨"strict", none, .flag (·.strict) fun a => { a with strict := true }⟩,
    ⟨"verbose", some 'v', .flag (·.verbose) fun a => { a with verbose := true }⟩,
    help]

/-!
# Commands
-/

inductive CommandName where
  | unused
  | untranslated
  | init
  | help
deriving DecidableEq, Repr

def commandName? (word : String) : Option CommandName :=
  if word = "unused" then some .unused
  else if word = "untranslated" then some .untranslated
  else if word = "init" then some .init
  else if word = "help" then some .help
  else none

/-- Help may be asked for about the program or about one command. -/
def refuseForHelp : List String → Refusal
  | [] => .showHelp
  | [word] => if (commandName? word).isSome then .showHelp else .unknownCommand
  | _ :: _ :: _ => .unknownCommand

def readCommand (name : CommandName) (arguments : List String) : Except Refusal Command :=
  match name with
  | .unused => return .unused (← readArguments UnusedArguments.switches .blank arguments)
  | .untranslated =>
      return .untranslated (← readArguments UntranslatedArguments.switches .blank arguments)
  | .init => do
      readArguments [help] () arguments
      return .init
  | .help => .error (refuseForHelp arguments)

/-- What follows two dashes in the place of a command. -/
def afterEscape : List String → Except Refusal (Option Command)
  | [] => .ok none
  | word :: _ =>
      if (commandName? word).isSome then .error .unknownArgument else .error .unknownCommand

def parse : List String → Except Refusal (Option Command)
  | [] => .ok none
  | argument :: arguments =>
      match commandName? argument with
      | some name => some <$> readCommand name arguments
      | none =>
          match shapeOf argument with
          | .escape => afterEscape arguments
          | .long rest => do
              let _ ← Reading.readLong [help, version] (.start ()) rest
              parse arguments
          | .short rest => do
              let _ ← Reading.readShort [help, version] (.start ()) rest
              parse arguments
          | .word => .error .unknownCommand

end CommandLine
end CatalogAudit
