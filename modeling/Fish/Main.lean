import Fish.CommandLine.Outcome

/-!
# The program

Runs a command line on the real world. Input is read a line at a time and only when the machine
would otherwise run out of it, and output is passed on as it is written, so that a program can
converse with its user. What the command comes to is `Fish.CommandLine.performOn` of the whole input
and of the output, where an error of a stream is what breaks it.
-/

namespace Fish.CommandLine

/-- The text that explains the arguments. -/
def usage : String :=
  "Run a ><> program

Usage: fish [OPTIONS] <SCRIPT|--code <CODE>>

Arguments:
  [SCRIPT]  Path to the program

Options:
  -c, --code <CODE>            Program source given on the command line
  -s, --string <STRING>        Push the characters of STRING onto the initial stack
  -v, --value <VALUE>          Push a number onto the initial stack, after --string. Repeatable
      --seed <SEED>            Seed for the random mirror `x`
      --max-steps <MAX_STEPS>  Stop after this many instructions
  -h, --help                   Print help
"

/-- The bytes of a file; `none` if it cannot be read. -/
def readFile? (path : String) : IO (Option (List UInt8)) := do
  try
    return some (← IO.FS.readBinFile path).toList
  catch _ =>
    return none

/-- The next line of a stream, its line feed included; nothing at the end. -/
partial def readLine (stream : IO.FS.Stream) (line : ByteArray) : IO ByteArray := do
  let byte ← stream.read 1
  if byte.isEmpty then return line
  else if byte.toList = [Input.lineFeed] then return line ++ byte
  else readLine stream (line ++ byte)

/-- Gives the machine as much input as its next step needs, if there is so much. -/
partial def feed (m : Machine) : IO Machine := do
  if m.awaitsInput then
    -- Whoever is asked for a number should see what was written before.
    (← IO.getStdout).flush
    let line ← readLine (← IO.getStdin) .empty
    if line.isEmpty then return m else feed (m.feed line.toList)
  else return m

/-- Runs a machine, step by step and at most as many as allowed, and passes its output on. -/
partial def drive (m : Machine) (allowed : Option Nat) : IO Machine := do
  if m.status ≠ .running ∨ allowed = some 0 then return m
  let m ← feed m
  let m := match m.step with
    | .ok _ m => m
    | .error _ m => m
  (← IO.getStdout).putStr m.output.text
  -- The text has been passed on and is dropped, lest it be written again.
  drive { m with output := { m.output with text := "" } } (allowed.map (· - 1))

/-- Sixty-four random bits. -/
def entropy : IO UInt64 := do
  return (← IO.getRandomBytes 8).toList.foldl (fun w b => w * 256 + b.toUInt64) 0

/-- Runs the program that the arguments name, and gives the status that it ends with; `none` if
    there is none to run. -/
def runProgram (a : Arguments) : IO (Option Status) := do
  let bytes ← match a.script with
    | some path => readFile? path
    | none => pure none
  match a.source? fun _ => bytes with
  | none => return none
  | some source =>
    try
      let m ← drive (a.machine source (← entropy) {} {}) a.maxSteps
      -- To flush is part of a halt; after any other end it does not matter if that fails.
      if m.status = .halted then (← IO.getStdout).flush
      return some m.status
    catch _ =>
      return some (.faulted .io)

end Fish.CommandLine

open Fish CommandLine in
/-- Runs a command line and gives its exit code. -/
def main (args : List String) : IO UInt32 := do
  let outcome ← match Arguments.parse args with
    | .error .help =>
      IO.print usage
      pure .help
    | .error .invalid =>
      IO.eprint usage
      pure .rejected
    | .ok a =>
      match ← runProgram a with
      | none =>
        IO.eprintln "the program cannot be read"
        pure .unreadable
      | some status => pure (Outcome.ran status "")
  if outcome.isFishy then
    IO.eprintln fishyMessage
  return .ofNat outcome.exitCode
