import Fish.Machine.Basic

/-!
# Execution of a cell

`Machine.execute` is what one cell does to the machine, the move of the pointer to the next cell
aside: it tells by a `Motion` how the pointer is to go on. Between quotes every cell but a quote
pushes its character; otherwise a cell does what its instruction says.

An instruction that faults keeps the values that it has popped by then. It changes nothing else.
-/

namespace Fish

/-- How the pointer goes on after a cell. -/
inductive Motion
  /-- To the next cell, or over it to the one after it if the machine is leaping. -/
  | advance
  /-- It stays where the instruction has put it. -/
  | stay
deriving DecidableEq, Repr

/-- The coordinate that a value stands for: its whole part, within the range of a signed word of 64
    bits. -/
def Binary64.toCoordinate (value : Binary64) : Int :=
  value.toIntWithin (-0x8000000000000000) 0x7fffffffffffffff

namespace Machine

/-- Takes the value on top. -/
def pop : Action Machine Binary64 := onStack Stack.pop

/-- Puts a value on top. -/
def push (value : Binary64) : Action Machine Unit := onStack (Stack.push value)

/-- Takes the coordinates of a point, `y` from the top and `x` from below it. -/
def popPoint : Action Machine Point := do
  let y ← pop
  let x ← pop
  return ⟨x.toCoordinate, y.toCoordinate⟩

/-- Passes a mirror. -/
def passMirror (m : Machine) (mirror : Mirror) : Machine :=
  let (pointer, generator) := m.pointer.passMirror mirror m.generator
  { m with pointer, generator }

/-- What a program sees at a point: a value that was put there, or else the code point of the cell,
    or else, outside the grid, zero. The torus does not count here. -/
def look (m : Machine) (p : Point) : Binary64 :=
  match m.scratch.find? p with
  | some value => value
  | none =>
    if p.Inside m.grid.bounds then
      match m.grid.cell? p with
      | some cell => .ofNat cell.glyph.toNat
      | none => .ofNat 0
    else .ofNat 0

/-- Ends the program; the output is flushed, which may fail. -/
def halt : Action Machine Unit := do
  modify fun m => { m with status := .halted }
  -- If this fails then the fault takes the place of the halt.
  onOutput Output.flush

/-- Lets the pointer go on to the next cell after an action. -/
def thenAdvance (act : Action Machine Unit) : Action Machine Motion := do
  act
  return .advance

/-- Writes the character that the value on top stands for. -/
def writeChar : Action Machine Unit := do
  let value ← pop
  onOutput (Output.write (String.singleton value.toChar))

/-- Writes the value on top as a number. -/
def writeNumber : Action Machine Unit := do
  let value ← pop
  onOutput (Output.write value.text)

/-- Pushes the next number of the input. -/
def readNumber : Action Machine Unit := do
  let value ← onInput Input.readNumber
  push value

/-- Pops a point and pushes what the program sees there. -/
def peek : Action Machine Unit := do
  let p ← popPoint
  push ((← get).look p)

/-- Pops a point and a value, and puts the value there. -/
def poke : Action Machine Unit := do
  let p ← popPoint
  let value ← pop
  modify fun m => { m with scratch := m.scratch.insert p value }

/-- Has the next move pass over a cell. -/
def leap (m : Machine) : Machine := { m with leaping := true }

/-- Has the next move pass over a cell if the value on top is zero. -/
def skipIfZero : Action Machine Unit := do
  let value ← pop
  if value.isZero then modify leap

/-- Pops a point and moves the pointer there. -/
def jump : Action Machine Motion := do
  let target ← popPoint
  modify fun m => { m with pointer := m.pointer.jump target m.grid.bounds }
  return .stay

/-- Does what the instruction of a cell says. -/
def obey (cell : Cell) : Action Machine Motion :=
  match cell.instruction with
  | .turn heading => thenAdvance (modify fun m => { m with pointer := m.pointer.turn heading })
  | .mirror mirror => thenAdvance (modify fun m => m.passMirror mirror)
  | .skip => thenAdvance (modify leap)
  | .skipIfZero => thenAdvance skipIfZero
  | .jump => jump
  | .digit value => thenAdvance (push (.ofNat value))
  | .operator op => thenAdvance (onTower (Tower.operate op))
  | .quote => thenAdvance (modify fun m => { m with quoting := !m.quoting })
  | .stack command => thenAdvance (onTower (Tower.perform command))
  | .writeChar => thenAdvance writeChar
  | .writeNumber => thenAdvance writeNumber
  | .readNumber => thenAdvance readNumber
  | .peek => thenAdvance peek
  | .poke => thenAdvance poke
  | .halt => do
    halt
    return .stay
  | .blank => return .advance
  -- The marks are no instructions; only a grid that was put together by hand may have one.
  | .endOfLine => throw (.invalidInstruction cell)
  | .endOfInput => throw (.invalidInstruction cell)

/-- Executes a cell: pushes its character between quotes, and obeys its instruction otherwise. -/
def execute (cell : Cell) : Action Machine Motion := do
  -- A quote is obeyed in any case, for between quotes it ends the run.
  if (← get).quoting && cell.instruction ≠ .quote then
    thenAdvance (push (.ofNat cell.glyph.toNat))
  else
    obey cell

end Machine

end Fish
