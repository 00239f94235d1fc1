import Fish.Stack.Operator

/-!
# Towers of stacks

A program works on a tower of stacks, of which only the uppermost is active. Opening a stack splits
it off the active one; closing it puts its values back on the stack below. There is always an
active stack: closing the last one leaves an empty one in its place.

`Tower.perform` carries out a stack command, and `Tower.operate` an operator.
-/

namespace Fish

/-- The active stack and those below it. -/
@[ext] structure Tower where
  active : Stack
  /-- The stacks below the active one, the nearest first. -/
  below : List Stack := []
deriving DecidableEq

namespace Tower

/-- The tower of a single stack. -/
def ofStack (s : Stack) : Tower := { active := s }

/-- The number of stacks. -/
def depth (t : Tower) : Nat := t.below.length + 1

/-- All stacks, the lowest first. -/
def toList (t : Tower) : List Stack := (t.active :: t.below).reverse

/-- Carries out an action on the active stack. -/
def onActive {α : Type} (act : Action Stack α) : Action Tower α :=
  Action.on active (fun s t => { t with active := s }) act

/-- Splits a new active stack off the present one, as many values as the count on top says. -/
def openStack : Action Tower Unit := do
  let child ← onActive Stack.splitOff
  modify fun t => { active := child, below := t.active :: t.below }

/-- Merges the active stack into the one below; the last stack is replaced by an empty one. -/
def closeStack : Action Tower Unit := modify fun t =>
  match t.below with
  | [] => { active := {} }
  | parent :: rest => { active := parent.absorb t.active, below := rest }

/-- Carries out a command. -/
def perform : StackCommand → Action Tower Unit
  | .duplicate => onActive Stack.duplicate
  | .remove => onActive (discard Stack.pop)
  | .swap => onActive Stack.swap
  | .topShift => onActive Stack.topShift
  | .shiftRight => onActive Stack.shiftRight
  | .shiftLeft => onActive Stack.shiftLeft
  | .reverse => onActive Stack.reverse
  | .length => onActive Stack.pushSize
  | .openStack => openStack
  | .closeStack => closeStack
  | .register => onActive Stack.toggleRegister

/-- Replaces the two values on top of the active stack by the result of an operator. -/
def operate (op : Operator) : Action Tower Unit := onActive (Stack.operate op)

end Tower

end Fish
