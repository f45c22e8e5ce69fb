/-!
# Switches

A switch is a flag, takes a value, or asks for something else than a run. Long names follow two
dashes and may have a value behind an equals sign. Short names follow one dash, several flags may
share it, and the rest of the argument is the value of the first switch that takes one. Without an
attached value the next argument is the value, unless it looks like a switch itself.
-/

namespace CatalogAudit
namespace CommandLine

inductive Refusal where
  | unknownArgument
  | unknownCommand
  | invalidValue
  | conflict
  | tooManyValues
  | showHelp
  | showVersion
deriving DecidableEq, Repr

def Refusal.message : Refusal → String
  | .unknownArgument => "unexpected argument"
  | .unknownCommand => "unrecognized command"
  | .invalidValue => "a value is missing"
  | .conflict => "an argument cannot be used multiple times"
  | .tooManyValues => "unexpected value for a flag"
  | .showHelp => "help"
  | .showVersion => "version"

/-- The exit status. To show something that was asked for is a success. -/
def Refusal.status : Refusal → UInt8
  | .showHelp => 0
  | .showVersion => 0
  | _ => 2

inductive Action (α : Type) where
  | flag (isGiven : α → Bool) (set : α → α)
  | value (allowsEmpty : Bool) (isGiven : α → Bool) (set : α → String → α)
  | refuse (refusal : Refusal)

structure Switch (α : Type) where
  long : String
  short : Option Char
  action : Action α

namespace Switch

def setFlag (isGiven : α → Bool) (set : α → α) (collected : α) : Except Refusal α :=
  if isGiven collected then .error .conflict else .ok (set collected)

/-- Sets a value, which has to be the first of its kind and must not be empty where that counts. -/
def setValue (allowsEmpty : Bool) (isGiven : α → Bool) (set : α → String → α) (collected : α)
    (value : String) : Except Refusal α :=
  if isGiven collected then .error .conflict
  else if value = "" ∧ !allowsEmpty then .error .invalidValue
  else .ok (set collected value)

end Switch

/-!
# Reading

A value that stands in an argument of its own is set only when the next switch is met or the
arguments end. Until then the switch is kept, with the value if it has been seen.
-/

/-- A switch that waits for its value, or holds it. -/
inductive Pending (α : Type) where
  | nothing
  | waiting (accept : α → String → Except Refusal α)
  | holding (accept : α → String → Except Refusal α) (value : String)

structure Reading (α : Type) where
  collected : α
  pending : Pending α

namespace Reading

def start (collected : α) : Reading α :=
  ⟨collected, .nothing⟩

def settle (reading : Reading α) : Except Refusal α :=
  match reading.pending with
  | .nothing => .ok reading.collected
  | .waiting _ => .error .invalidValue
  | .holding accept value => accept reading.collected value

def meet (reading : Reading α) (action : Action α) : Except Refusal (Reading α) := do
  let collected ← reading.settle
  match action with
  | .flag isGiven set => return start (← Switch.setFlag isGiven set collected)
  | .value allowsEmpty isGiven set =>
      return ⟨collected, .waiting (Switch.setValue allowsEmpty isGiven set)⟩
  | .refuse refusal => .error refusal

def meetWith (reading : Reading α) (action : Action α) (value : String) :
    Except Refusal (Reading α) :=
  match action with
  | .value allowsEmpty isGiven set => do
      let collected ← reading.settle
      return start (← Switch.setValue allowsEmpty isGiven set collected value)
  | .flag _ _ => .error .tooManyValues
  | .refuse _ => .error .tooManyValues

def readLong (switches : List (Switch α)) (reading : Reading α) (cs : List Char) :
    Except Refusal (Reading α) :=
  let name := String.ofList (cs.takeWhile (· ≠ '='))
  match switches.find? (·.long == name) with
  | none => .error .unknownArgument
  | some switch =>
      match cs.dropWhile (· ≠ '=') with
      | [] => reading.meet switch.action
      | _ :: value => reading.meetWith switch.action (String.ofList value)

/-- Reads an argument behind one dash. An equals sign in front of a value does not count. -/
def readShort (switches : List (Switch α)) (reading : Reading α) :
    List Char → Except Refusal (Reading α)
  | [] => .ok reading
  | c :: cs =>
      match switches.find? (·.short == some c) with
      | none => .error .unknownArgument
      | some switch =>
          match switch.action, cs with
          | .value .., '=' :: value => reading.meetWith switch.action (String.ofList value)
          | .value .., d :: value => reading.meetWith switch.action (String.ofList (d :: value))
          | action, rest => do readShort switches (← reading.meet action) rest

/-- Reads an argument that is no switch, which can only be a value. -/
def readWord (reading : Reading α) (word : String) : Except Refusal (Reading α) :=
  match reading.pending with
  | .waiting accept => .ok ⟨reading.collected, .holding accept word⟩
  | .nothing => .error .unknownArgument
  | .holding _ _ => .error .unknownArgument

end Reading

/-!
# Arguments

Behind two dashes alone nothing is a switch any more, and there is nothing else to be given.
-/

inductive Shape where
  | escape
  | long (rest : List Char)
  | short (rest : List Char)
  | word
deriving DecidableEq, Repr

def shapeOf (argument : String) : Shape :=
  match argument.toList with
  | ['-', '-'] => .escape
  | '-' :: '-' :: rest => .long rest
  | '-' :: c :: rest => .short (c :: rest)
  | _ => .word

def readFrom (switches : List (Switch α)) (reading : Reading α) :
    List String → Except Refusal α
  | [] => reading.settle
  | argument :: arguments =>
      match shapeOf argument with
      | .escape => if arguments.isEmpty then reading.settle else .error .unknownArgument
      | .long rest => do readFrom switches (← reading.readLong switches rest) arguments
      | .short rest => do readFrom switches (← reading.readShort switches rest) arguments
      | .word => do readFrom switches (← reading.readWord argument) arguments

def readArguments (switches : List (Switch α)) (collected : α) (arguments : List String) :
    Except Refusal α :=
  readFrom switches (.start collected) arguments

end CommandLine
end CatalogAudit
