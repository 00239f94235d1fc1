import Fish.CommandLine.Arguments
import Fish.Machine.Run

/-!
# What a command comes to

A command either runs a program or says why it does not. Its exit code tells how the program ended:
zero for a halt, seven if the allowed steps were used up, and the code of the kind of a fault. One
is for commands that run no program.

The program reads the standard input of the command and writes to its standard output. Either may
be broken: a directory can be opened as an input but not read, and a full device takes nothing.
That is a fault of the program like any other, with an exit code of its own.
-/

namespace Fish.CommandLine

/-- What a command comes to. -/
inductive Outcome
  /-- Help was asked for. -/
  | help
  /-- The command line was rejected. -/
  | rejected
  /-- The script is not there, or is no text. -/
  | unreadable
  /-- The program ran up to the given status, after which the given text is in the output. -/
  | ran (status : Status) (output : String)
deriving DecidableEq

/-- The exit code of a program that ran. -/
def exitCode : Status → Nat
  | .halted => 0
  | .running => 7
  | .faulted kind => kind.exitCode

/-- The one message that a fault has for the user. -/
def fishyMessage : String := "something smells fishy..."

namespace Outcome

/-- The exit code of a command. -/
def exitCode : Outcome → Nat
  | help => 0
  | rejected => 1
  | unreadable => 1
  | ran status _ => CommandLine.exitCode status

/-- The text in the output of the program; nothing if none ran. -/
def output : Outcome → String
  | ran _ output => output
  | _ => ""

/-- The user is told that something is wrong with the program. -/
def isFishy : Outcome → Bool
  | ran (.faulted _) _ => true
  | _ => false

end Outcome

namespace Arguments

/-- The text of the program; `none` if it is in a script that cannot be read as text. -/
def source? (a : Arguments) (files : String → Option (List UInt8)) : Option String :=
  match a.code with
  | some code => some code
  | none => do
    let bytes ← files (← a.script)
    Text.decode? bytes

/-- The machine that runs a program text. The entropy is the seed if none was given. -/
def machine (a : Arguments) (source : String) (entropy : UInt64) (input : Input)
    (output : Output) : Machine :=
  .start (.parse source) a.initialStack (a.seed.getD entropy) input output

/-- Runs a machine to its end, or as many steps as allowed; `none` if it never ends. -/
def complete (a : Arguments) (m : Machine) : Option Machine :=
  match a.maxSteps with
  | some n =>
    match m.runFor n with
    | .ok _ m => some m
    | .error _ m => some m
  | none =>
    match m.run with
    | some (.ok _ m) => some m
    | some (.error _ m) => some m
    | none => none

end Arguments

/-- What a command line comes to, with the files that there are, the standard input and the standard
    output; `none` if the program runs forever. -/
def performOn (args : List String) (files : String → Option (List UInt8)) (entropy : UInt64)
    (input : Input) (output : Output) : Option Outcome :=
  match Arguments.parse args with
  | .error .help => some .help
  | .error .invalid => some .rejected
  | .ok a =>
    match a.source? files with
    | none => some .unreadable
    | some source =>
      (a.complete (a.machine source entropy input output)).map fun m =>
        .ran m.status m.output.text

/-- What a command line comes to if neither stream breaks: the input is the given bytes, and the
    output takes everything. -/
def perform (args : List String) (files : String → Option (List UInt8)) (entropy : UInt64)
    (input : List UInt8) : Option Outcome :=
  performOn args files entropy (.ofBytes input) {}

end Fish.CommandLine
