import Fish.Cell
import Fish.Text.Quoted

/-!
# Faults

What can go wrong while a program runs. A fault has a message for those who look for its cause, and
a kind, which is all that the world outside is told. `Action` is an operation that may fault: it
changes a state as it goes, and a fault does not undo the changes made before it.
-/

namespace Fish

/-- A cause for which execution ends before the program does. -/
inductive Fault
  | divisionByZero
  | invalidInstruction (cell : Cell)
  /-- An operation needed more values than there were. -/
  | stackUnderflow (required available : Nat)
  /-- A word of the input is not a number. -/
  | malformedNumber (token : String)
  | inputExhausted
  /-- The input or the output itself failed. -/
  | io (reason : String)
deriving DecidableEq

/-- The kinds of faults that are told apart from outside. -/
inductive Fault.Kind
  | divisionByZero
  | invalidInstruction
  | stackUnderflow
  | invalidInput
  | io
deriving DecidableEq, Repr

namespace Fault

/-- The kind of a fault. Input that is missing and input that makes no sense are one kind. -/
def kind : Fault → Kind
  | divisionByZero => .divisionByZero
  | invalidInstruction _ => .invalidInstruction
  | stackUnderflow .. => .stackUnderflow
  | malformedNumber _ => .invalidInput
  | inputExhausted => .invalidInput
  | io _ => .io

/-- The text that explains a fault. -/
def message : Fault → String
  | divisionByZero => "division by zero"
  | invalidInstruction cell =>
    "invalid instruction " ++ Text.quoted '\'' [cell.glyph] ++ " (" ++ cell.instruction.name ++ ")"
  | stackUnderflow required available =>
    s!"stack underflow: needed {required}, had {available}"
  | malformedNumber token => "malformed numeric input: " ++ Text.quoted '"' token.toList
  | inputExhausted => "input exhausted"
  | io reason => reason

/-- The exit code by which a kind of fault is reported; success is zero, and one is left for
    programs that cannot be loaded. -/
def Kind.exitCode : Kind → Nat
  | divisionByZero => 2
  | invalidInstruction => 3
  | stackUnderflow => 4
  | invalidInput => 5
  | io => 6

/-- The exit code tells the kind. -/
theorem Kind.exitCode_inj {a b : Kind} (h : a.exitCode = b.exitCode) : a = b := by
  cases a <;> cases b <;> first | rfl | cases h

end Fault

/-- An operation on a state that gives a value or faults, and in both cases leaves a state. -/
abbrev Action (σ α : Type) := EStateM Fault σ α

/-- Carries an action out on a part of a larger state. -/
def Action.on {σ τ α : Type} (get : σ → τ) (set : τ → σ → σ) (act : Action τ α) : Action σ α :=
  fun s =>
    match act (get s) with
    | .ok a t => .ok a (set t s)
    | .error fault t => .error fault (set t s)

end Fish
