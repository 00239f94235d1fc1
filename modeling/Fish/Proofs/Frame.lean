import Fish.Proofs.Execution

/-!
# What an instruction leaves alone

`Part` lists the parts of a machine, and `Instruction.writes` says which of them an instruction may
change. Every other part is after the instruction what it was before, whether it succeeds or
faults: this is the one fact from which later proofs learn what a cell does not touch.

Main lemmas:

* `Machine.obey_keeps`      an instruction changes only what it writes
* `Machine.execute_keeps`   the same of a cell, in and outside a literal run
-/

namespace Fish

/-- The parts of a machine. -/
inductive Part
  | grid
  | position
  | heading
  | active
  | below
  | quoting
  | leaping
  | status
  | scratch
  | generator
  | input
  | output
  | steps
deriving DecidableEq

namespace Part

/-- What a part consists of. -/
abbrev Content : Part → Type
  | grid => Grid
  | position => Point
  | heading => Heading
  | active => Stack
  | below => List Stack
  | quoting => Bool
  | leaping => Bool
  | status => Status
  | scratch => Scratch
  | generator => Generator
  | input => Input
  | output => Output
  | steps => Nat

/-- The part of a machine. -/
abbrev view : (p : Part) → Machine → p.Content
  | grid, m => m.grid
  | position, m => m.pointer.position
  | heading, m => m.pointer.heading
  | active, m => m.tower.active
  | below, m => m.tower.below
  | quoting, m => m.quoting
  | leaping, m => m.leaping
  | status, m => m.status
  | scratch, m => m.scratch
  | generator, m => m.generator
  | input, m => m.input
  | output, m => m.output
  | steps, m => m.steps

end Part

/-- The parts that an instruction may change. A jump moves the pointer, all other moves are not
    made by instructions. -/
def Instruction.writes : Instruction → List Part
  | turn _ => [.heading]
  | mirror .random => [.heading, .generator]
  | mirror _ => [.heading]
  | skip => [.leaping]
  | skipIfZero => [.active, .leaping]
  | jump => [.active, .position]
  | quote => [.quoting]
  | stack .openStack => [.active, .below]
  | stack .closeStack => [.active, .below]
  | stack _ => [.active]
  | digit _ => [.active]
  | operator _ => [.active]
  | writeChar => [.active, .output]
  | writeNumber => [.active, .output]
  | readNumber => [.active, .input]
  | peek => [.active]
  | poke => [.active, .scratch]
  | halt => [.status]
  | blank => []
  | endOfLine => []
  | endOfInput => []

namespace Instruction

variable {i : Instruction}

/-- No instruction changes the grid. -/
theorem grid_notin_writes (i : Instruction) : Part.grid ∉ i.writes := by
  cases i with
  | mirror mirror => cases mirror <;> simp [writes]
  | stack command => cases command <;> simp [writes]
  | _ => simp [writes]

/-- Only a jump moves the pointer. -/
theorem eq_jump_of_position (h : Part.position ∈ i.writes) : i = .jump := by
  cases i with
  | jump => rfl
  | mirror mirror => cases mirror <;> simp [writes] at h
  | stack command => cases command <;> simp [writes] at h
  | _ => simp [writes] at h

/-- Only a halt changes the status. -/
theorem eq_halt_of_status (h : Part.status ∈ i.writes) : i = .halt := by
  cases i with
  | halt => rfl
  | mirror mirror => cases mirror <;> simp [writes] at h
  | stack command => cases command <;> simp [writes] at h
  | _ => simp [writes] at h

end Instruction

namespace Machine

open Fish.Action (Keeps)

variable {m : Machine} {cell : Cell} {p : Part}

/-! ## Actions on one part -/

/-- Work on the tower changes its stacks at most. -/
theorem keeps_onTower {α : Type} {act : Action Tower α} (ha : p ≠ .active) (hb : p ≠ .below) :
    Keeps p.view (onTower act) :=
  .on (fun s t => by cases p <;> first | rfl | contradiction) act

/-- Work on the active stack changes no other one. -/
theorem keeps_onStack {α : Type} {act : Action Stack α} (ha : p ≠ .active) :
    Keeps p.view (onStack act) := by
  intro s
  simp only [onStack, onTower, Tower.onActive, Action.on]
  cases act s.tower.active <;> cases p <;> first | rfl | contradiction

/-- Work on the input changes the input at most. -/
theorem keeps_onInput {α : Type} {act : Action Input α} (h : p ≠ .input) :
    Keeps p.view (onInput act) :=
  .on (fun s t => by cases p <;> first | rfl | contradiction) act

/-- Work on the output changes the output at most. -/
theorem keeps_onOutput {α : Type} {act : Action Output α} (h : p ≠ .output) :
    Keeps p.view (onOutput act) :=
  .on (fun s t => by cases p <;> first | rfl | contradiction) act

/-- To let the pointer go on is left to the move after the cell, and changes nothing here. -/
theorem keeps_thenAdvance {act : Action Machine Unit} (h : Keeps p.view act) :
    Keeps p.view (thenAdvance act) :=
  h.bind fun _ => .pure _

/-- A point is two values of the active stack. -/
theorem keeps_popPoint (h : p ≠ .active) : Keeps p.view popPoint :=
  (keeps_onStack h).bind fun _ => (keeps_onStack h).bind fun _ => .pure _

/-- A halt changes the status; a flush leaves the output as it is. -/
theorem keeps_halt (h : p ≠ .status) : Keeps p.view halt := by
  intro m
  rw [halt_apply]
  cases m.output.flushDefect <;> cases p <;> first | rfl | contradiction

/-- A stack command changes only the stacks that it writes. -/
theorem keeps_perform (command : StackCommand) (h : p ∉ (Instruction.stack command).writes) :
    Keeps p.view (onTower (Tower.perform command)) := by
  cases command with
  -- The only commands that work on more than the active stack.
  | openStack | closeStack =>
    have ha : p ≠ .active := by rintro rfl; simp [Instruction.writes] at h
    have hb : p ≠ .below := by rintro rfl; simp [Instruction.writes] at h
    exact keeps_onTower ha hb
  | _ =>
    have ha : p ≠ .active := by rintro rfl; simp [Instruction.writes] at h
    exact keeps_onStack ha

/-! ## Instructions -/

/-- An instruction changes only what it writes. -/
theorem obey_keeps (cell : Cell) (h : p ∉ cell.instruction.writes) : Keeps p.view (obey cell) := by
  -- The sequences of actions are taken apart by `Keeps.bind`; what is left is one action each.
  rw [obey]
  cases hi : cell.instruction with
  -- Changes of the machine that are made in one go: each part but the one that is written is found
  -- as it was.
  | turn heading =>
    rw [hi] at h
    refine keeps_thenAdvance (.modify fun m => ?_)
    cases p <;> first | rfl | simp [Instruction.writes] at h
  | mirror mirror =>
    rw [hi] at h
    refine keeps_thenAdvance (.modify fun m => ?_)
    cases mirror <;> cases p <;> first | rfl | simp [Instruction.writes] at h
  | skip =>
    rw [hi] at h
    refine keeps_thenAdvance (.modify fun m => ?_)
    cases p <;> first | rfl | simp [Instruction.writes] at h
  | quote =>
    rw [hi] at h
    refine keeps_thenAdvance (.modify fun m => ?_)
    cases p <;> first | rfl | simp [Instruction.writes] at h
  -- Instructions that write two parts: neither of them is the one in question.
  | skipIfZero =>
    rw [hi, Instruction.writes, List.mem_cons, List.mem_singleton, not_or] at h
    refine keeps_thenAdvance ((keeps_onStack h.1).bind fun value => ?_)
    split
    · refine .modify fun m => ?_
      cases p <;> first | rfl | simp at h
    · exact .pure _
  | jump =>
    rw [hi, Instruction.writes, List.mem_cons, List.mem_singleton, not_or] at h
    refine (keeps_popPoint h.1).bind fun target => .bind (.modify fun m => ?_) fun _ => .pure _
    cases p <;> first | rfl | exact Pointer.heading_jump .. | simp at h
  -- Instructions that only change the stacks.
  | digit value =>
    exact keeps_thenAdvance (keeps_onStack (by simpa [hi, Instruction.writes] using h))
  | operator op =>
    exact keeps_thenAdvance (keeps_onStack (by simpa [hi, Instruction.writes] using h))
  | stack command => exact keeps_thenAdvance (keeps_perform command (hi ▸ h))
  | writeChar | writeNumber =>
    rw [hi, Instruction.writes, List.mem_cons, List.mem_singleton, not_or] at h
    exact keeps_thenAdvance ((keeps_onStack h.1).bind fun value => keeps_onOutput h.2)
  | readNumber =>
    rw [hi, Instruction.writes, List.mem_cons, List.mem_singleton, not_or] at h
    exact keeps_thenAdvance ((keeps_onInput h.2).bind fun value => keeps_onStack h.1)
  | peek =>
    have ha : p ≠ .active := by simpa [hi, Instruction.writes] using h
    exact keeps_thenAdvance
      ((keeps_popPoint ha).bind fun at_ => .get_bind fun m => keeps_onStack ha)
  | poke =>
    rw [hi, Instruction.writes, List.mem_cons, List.mem_singleton, not_or] at h
    refine keeps_thenAdvance ((keeps_popPoint h.1).bind fun at_ =>
      (keeps_onStack h.1).bind fun value => .modify fun m => ?_)
    cases p <;> first | rfl | simp at h
  | halt =>
    have hs : p ≠ .status := by simpa [hi, Instruction.writes] using h
    exact (keeps_halt hs).bind fun _ => .pure _
  | blank => exact .pure _
  | endOfLine | endOfInput => exact .throw _

/-! ## Cells -/

/-- The parts that a cell may change. Between quotes a cell that is not a quote only pushes. -/
def writes (m : Machine) (cell : Cell) : List Part :=
  if m.quoting && cell.instruction ≠ .quote then [.active] else cell.instruction.writes

/-- Between quotes a cell changes the active stack only. -/
theorem writes_of_quoting (hq : m.quoting = true) (hc : cell.instruction ≠ .quote) :
    m.writes cell = [.active] := by
  simp [writes, hq, hc]

/-- A cell that is obeyed changes what its instruction does. -/
theorem writes_of_obeying (h : m.quoting = false ∨ cell.instruction = .quote) :
    m.writes cell = cell.instruction.writes := by
  rcases h with h | h <;> simp [writes, h]

/-- A cell that writes more than values is obeyed. -/
theorem obeying_of_mem_writes (h : p ∈ m.writes cell) (hp : p ≠ .active) :
    (m.quoting = false ∨ cell.instruction = .quote) ∧ p ∈ cell.instruction.writes := by
  rcases obeying_or_quoting m cell with hobey | ⟨hq, hc⟩
  · rw [writes_of_obeying hobey] at h
    exact ⟨hobey, h⟩
  · rw [writes_of_quoting hq hc, List.mem_singleton] at h
    exact absurd h hp

/-- A cell changes only what it writes. -/
theorem execute_keeps (h : p ∉ m.writes cell) : p.view (execute cell m).state = p.view m := by
  -- What a cell writes depends on whether it is obeyed, and so does what it does.
  rcases obeying_or_quoting m cell with hobey | ⟨hq, hc⟩
  · rw [writes_of_obeying hobey] at h
    rw [execute_of_obeying hobey]
    exact obey_keeps cell h m
  · rw [writes_of_quoting hq hc, List.mem_singleton] at h
    rw [execute_of_quoting hq hc]
    cases p <;> first | rfl | contradiction

/-- A cell leaves the grid alone. -/
theorem grid_execute (cell : Cell) (m : Machine) : (execute cell m).state.grid = m.grid :=
  execute_keeps (p := .grid) fun h =>
    cell.instruction.grid_notin_writes (obeying_of_mem_writes h nofun).2

end Machine

end Fish
