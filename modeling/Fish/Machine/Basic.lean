import Fish.Grid
import Fish.Input
import Fish.Output
import Fish.Pointer
import Fish.Random.Generator
import Fish.Scratch
import Fish.Stack.Tower

/-!
# The machine

A machine is a program in the course of execution: the grid, which never changes, the pointer that
travels over it, and everything that the instructions work on. Its status tells whether execution
goes on.
-/

namespace Fish

/-- Whether a machine goes on, and if not, why. -/
inductive Status
  | running
  | halted
  | faulted (kind : Fault.Kind)
deriving DecidableEq, Repr

/-- A program in the course of execution. -/
structure Machine where
  grid : Grid
  pointer : Pointer := .start
  tower : Tower
  /-- Cells are pushed as characters instead of being executed. -/
  quoting : Bool := false
  /-- The next move of the pointer passes over a cell. -/
  leaping : Bool := false
  status : Status := .running
  scratch : Scratch := {}
  generator : Generator
  input : Input := {}
  output : Output := {}
  /-- The number of cells executed so far. -/
  steps : Nat := 0
deriving DecidableEq

namespace Machine

/-- A machine before its first step. The values are those of the first stack, the bottom first. -/
def start (grid : Grid) (values : List Binary64) (seed : UInt64) (input : Input)
    (output : Output) : Machine :=
  { grid, tower := .ofStack (.ofList values), generator := .ofSeed seed, input, output }

/-- Carries out an action on the tower of stacks. -/
def onTower {α : Type} (act : Action Tower α) : Action Machine α :=
  Action.on tower (fun t m => { m with tower := t }) act

/-- Carries out an action on the active stack. -/
def onStack {α : Type} (act : Action Stack α) : Action Machine α := onTower (Tower.onActive act)

/-- Carries out an action on the input. -/
def onInput {α : Type} (act : Action Input α) : Action Machine α :=
  Action.on input (fun i m => { m with input := i }) act

/-- Carries out an action on the output. -/
def onOutput {α : Type} (act : Action Output α) : Action Machine α :=
  Action.on output (fun o m => { m with output := o }) act

/-- The active stack. -/
def stack (m : Machine) : Stack := m.tower.active

/-- The cell that the pointer is at; `none` if the grid has none. -/
def cell? (m : Machine) : Option Cell := m.grid.lookup m.pointer.position

end Machine

end Fish
