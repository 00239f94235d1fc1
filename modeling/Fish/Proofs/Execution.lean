import Fish.Machine.Run
import Fish.Proofs.Action

/-!
# Instructions in closed form

What each instruction makes of a machine, as an equation: the values on the active stack decide
whether it faults, and the equation names the machine that it leaves in both cases. An instruction
that pops one value after the other leaves the active stack empty when it runs short, whether there
was one value or none.

Main lemmas:

* `popPoint_apply`, `jump_apply`, `peek_apply`, `poke_apply`   instructions that speak of a point
* `popAndWrite_apply`, `readNumber_apply`, `halt_apply`        instructions that speak to the world
* `onStack_apply`                                              instructions of the active stack
* `execute_of_quoting`, `execute_of_obeying`                   cells in and outside a literal run
* `instruction_of_stay`                                        only a jump and a halt hold it
-/

namespace Fish.Machine

variable {m n : Machine} {cell : Cell} {values rest : List Binary64} {value x y : Binary64}

/-- The machine with other values on its active stack. -/
def withValues (m : Machine) (values : List Binary64) : Machine :=
  { m with tower := { m.tower with active := { m.tower.active with values } } }

/-- Other values on the active stack do not change the output. -/
@[simp] theorem output_withValues : (m.withValues values).output = m.output := rfl

/-- The values that are there already make no other machine. -/
theorem withValues_eq_self (h : m.stack.values = values) : m.withValues values = m := by
  subst h; rfl

/-! ## Pops -/

/-- A pop from no values faults and changes nothing. -/
theorem pop_of_nil (h : m.stack.values = []) : pop m = .error (.stackUnderflow 1 0) m := by
  simp only [stack] at h
  simp only [pop, onStack, onTower, Tower.onActive, Action.on, Stack.pop, h]

/-- A pop takes the topmost value. -/
theorem pop_of_cons (h : m.stack.values = value :: rest) :
    pop m = .ok value (m.withValues rest) := by
  simp only [stack] at h
  simp only [pop, onStack, onTower, Tower.onActive, Action.on, Stack.pop, h]
  rfl

/-- A point is two values, `y` above `x`. One value alone is lost, for it is popped before the other
    is found to be missing. -/
theorem popPoint_apply (m : Machine) :
    popPoint m =
      match m.stack.values with
      | y :: x :: rest => .ok ⟨x.toCoordinate, y.toCoordinate⟩ (m.withValues rest)
      | _ => .error (.stackUnderflow 1 0) (m.withValues []) := by
  rw [popPoint]
  -- The two pops are taken in turn: the second may fault after the first has taken a value.
  match h : m.stack.values with
  | [] => rw [Action.bind_of_error (pop_of_nil h), withValues_eq_self h]
  | [y] => rw [Action.bind_of_ok (pop_of_cons h), Action.bind_of_error (pop_of_nil rfl)]
  | y :: x :: rest =>
    rw [Action.bind_of_ok (pop_of_cons h), Action.bind_of_ok (pop_of_cons rfl)]
    rfl

/-! ## Instructions that speak of a point -/

/-- A jump goes to the point, folded into the grid, and holds the pointer there. -/
theorem jump_apply (m : Machine) :
    jump m =
      match m.stack.values with
      | y :: x :: rest =>
        .ok .stay { m.withValues rest with
          pointer := m.pointer.jump ⟨x.toCoordinate, y.toCoordinate⟩ m.grid.bounds }
      | _ => .error (.stackUnderflow 1 0) (m.withValues []) := by
  rw [jump, Action.bind_apply, popPoint_apply]
  match m.stack.values with
  | [] => rfl
  | [_] => rfl
  | _ :: _ :: _ => rfl

/-- A peek puts what is seen at the point in its place. -/
theorem peek_apply (m : Machine) :
    peek m =
      match m.stack.values with
      | y :: x :: rest =>
        .ok () (m.withValues (m.look ⟨x.toCoordinate, y.toCoordinate⟩ :: rest))
      | _ => .error (.stackUnderflow 1 0) (m.withValues []) := by
  rw [peek, Action.bind_apply, popPoint_apply]
  match m.stack.values with
  | [] => rfl
  | [_] => rfl
  | _ :: _ :: _ => rfl

/-- A poke takes a third value, and puts it at the point. Whatever there is of the three is lost if
    they are not all there. -/
theorem poke_apply (m : Machine) :
    poke m =
      match m.stack.values with
      | y :: x :: value :: rest =>
        .ok () { m.withValues rest with
          scratch := m.scratch.insert ⟨x.toCoordinate, y.toCoordinate⟩ value }
      | _ => .error (.stackUnderflow 1 0) (m.withValues []) := by
  rw [poke, Action.bind_apply, popPoint_apply]
  match m.stack.values with
  | [] => rfl
  | [_] => rfl
  | [_, _] => rfl
  | _ :: _ :: _ :: _ => rfl

/-! ## Instructions that speak to the world -/

/-- Both instructions that write pop a value and write a text that stands for it. -/
theorem popAndWrite_apply (text : Binary64 → String) (m : Machine) :
    (pop >>= fun value => onOutput (Output.write (text value))) m =
      match m.stack.values with
      | [] => .error (.stackUnderflow 1 0) m
      | value :: rest =>
        if m.output.hasRoom (text value) then
          .ok () { m.withValues rest with
            output := { m.output with text := m.output.text ++ text value } }
        else .error (.io "sink full") (m.withValues rest) := by
  match h : m.stack.values with
  | [] => rw [Action.bind_of_error (pop_of_nil h)]
  | value :: rest =>
    rw [Action.bind_of_ok (pop_of_cons h)]
    -- The value is gone by the time that the output accepts its text or refuses it.
    by_cases hroom : m.output.hasRoom (text value) = true
    · simp only [onOutput, Action.on, Output.write, output_withValues, hroom, if_true]
    · simp only [onOutput, Action.on, Output.write, output_withValues, hroom]
      rfl

/-- A value is written as a character. -/
theorem writeChar_eq :
    writeChar = (pop >>= fun value => onOutput (Output.write (String.singleton value.toChar))) :=
  rfl

/-- A value is written as a number. -/
theorem writeNumber_eq :
    writeNumber = (pop >>= fun value => onOutput (Output.write value.text)) := rfl

/-- A number from the input is pushed. A fault of the input leaves the stacks as they are. -/
theorem readNumber_apply (m : Machine) :
    readNumber m =
      match m.input.readNumber with
      | .ok value input => .ok () { m.withValues (value :: m.stack.values) with input }
      | .error fault input => .error fault { m with input } := by
  rw [readNumber, Action.bind_apply]
  simp only [onInput, Action.on]
  cases m.input.readNumber <;> rfl

/-- A halt ends the program and flushes the output. If that fails, the fault comes after the end. -/
theorem halt_apply (m : Machine) :
    halt m =
      match m.output.flushDefect with
      | none => .ok () { m with status := .halted }
      | some reason => .error (.io reason) { m with status := .halted } := by
  rw [halt, Action.modify_bind_apply]
  simp only [onOutput, Action.on, Output.flush]
  cases m.output.flushDefect <;> rfl

/-- A value is popped, and zero has the next move pass over a cell. -/
theorem skipIfZero_apply (m : Machine) :
    skipIfZero m =
      match m.stack.values with
      | [] => .error (.stackUnderflow 1 0) m
      | value :: rest =>
        .ok () (if value.isZero then (m.withValues rest).leap else m.withValues rest) := by
  rw [skipIfZero]
  match h : m.stack.values with
  | [] => rw [Action.bind_of_error (pop_of_nil h)]
  | value :: rest =>
    rw [Action.bind_of_ok (pop_of_cons h)]
    cases hz : value.isZero <;> simp only [hz] <;> rfl

/-! ## Instructions of the active stack -/

/-- Work on the active stack goes on in the machine that holds the stack. -/
theorem onStack_apply (act : Action Stack Unit) (m : Machine) :
    onTower (Tower.onActive act) m =
      match act m.stack with
      | .ok () s => .ok () { m with tower := { m.tower with active := s } }
      | .error fault s => .error fault { m with tower := { m.tower with active := s } } := by
  simp only [onTower, Tower.onActive, Action.on, stack]
  cases act m.tower.active <;> rfl

/-- A fault on the active stack is a fault of the machine that holds it. -/
theorem onStack_error {act : Action Stack Unit} {fault : Fault}
    (h : onTower (Tower.onActive act) m = .error fault n) :
    ∃ s, act m.stack = .error fault s ∧
      n = { m with tower := { m.tower with active := s } } := by
  -- The equation says what the machine does in either case of the stack; only one gives a fault.
  rw [onStack_apply] at h
  cases hact : act m.stack with
  | ok u s =>
    rw [hact] at h
    cases h
  | error fault s =>
    rw [hact] at h
    cases h
    exact ⟨s, rfl, rfl⟩

/-- The topmost value of a stack, removed. -/
theorem discard_pop_apply (s : Stack) :
    discard Stack.pop s =
      match s.values with
      | [] => .error (.stackUnderflow 1 0) s
      | _ :: rest => .ok () { s with values := rest } := by
  simp only [discard, Functor.discard, Functor.mapConst, Function.comp, EStateM.map, Stack.pop]
  cases s.values <;> rfl

/-- A new stack takes the values that the count asks for, and the stack below keeps the others. -/
theorem openStack_apply (m : Machine) :
    onTower Tower.openStack m =
      match m.stack.values with
      | [] => .error (.stackUnderflow 1 0) m
      | count :: rest =>
        match Stack.countWithin count rest.length with
        | none =>
          .error (.stackUnderflow (count.toIntWithin 0 Stack.greatestCount).toNat rest.length)
            (m.withValues rest)
        | some k =>
          .ok () { m with
            tower :=
              { active := { values := rest.take k }
                below := { m.stack with values := rest.drop k } :: m.tower.below } } := by
  simp only [onTower, Action.on, Tower.openStack, Action.bind_apply, Tower.onActive, Stack.splitOff,
    stack]
  -- The count is popped first, and then compared with what is left.
  cases m.tower.active.values with
  | nil => rfl
  | cons count rest =>
    simp only
    cases Stack.countWithin count rest.length <;> rfl

/-! ## Cells -/

/-- A cell is obeyed outside quotes, and a quote is obeyed in any case; between quotes every other
    cell is not. -/
theorem obeying_or_quoting (m : Machine) (cell : Cell) :
    (m.quoting = false ∨ cell.instruction = .quote) ∨
      (m.quoting = true ∧ cell.instruction ≠ .quote) := by
  cases hq : m.quoting with
  | false => exact .inl (.inl rfl)
  | true =>
    by_cases hc : cell.instruction = .quote
    · exact .inl (.inr hc)
    · exact .inr ⟨rfl, hc⟩

/-- Between quotes a cell that is not a quote pushes its character. -/
theorem execute_of_quoting (hq : m.quoting = true) (hc : cell.instruction ≠ .quote) :
    execute cell m = .ok .advance (m.withValues (.ofNat cell.glyph.toNat :: m.stack.values)) := by
  have hcond : (m.quoting && cell.instruction ≠ .quote) = true := by simp [hq, hc]
  rw [execute, Action.get_bind_apply, if_pos hcond]
  rfl

/-- Outside quotes, and at a quote, a cell does what its instruction says. -/
theorem execute_of_obeying (h : m.quoting = false ∨ cell.instruction = .quote) :
    execute cell m = obey cell m := by
  have hcond : ¬(m.quoting && cell.instruction ≠ .quote) = true := by
    rcases h with h | h <;> simp [h]
  rw [execute, Action.get_bind_apply, if_neg hcond]

/-- An action that succeeds lets the pointer go on. -/
theorem thenAdvance_apply (act : Action Machine Unit) (m : Machine) :
    thenAdvance act m =
      match act m with
      | .ok () n => .ok .advance n
      | .error fault n => .error fault n := by
  rw [thenAdvance, Action.bind_apply]
  cases act m <;> rfl

/-- It faults only as the action itself does. -/
theorem thenAdvance_error {act : Action Machine Unit} {fault : Fault}
    (h : thenAdvance act m = .error fault n) : act m = .error fault n := by
  rw [thenAdvance_apply] at h
  cases hact : act m with
  | ok u t =>
    rw [hact] at h
    cases h
  | error fault t =>
    rw [hact] at h
    cases h
    rfl

/-- It succeeds only as the action itself does, and then the pointer goes on. -/
theorem thenAdvance_ok {act : Action Machine Unit} {motion : Motion}
    (h : thenAdvance act m = .ok motion n) : motion = .advance ∧ act m = .ok () n := by
  rw [thenAdvance_apply] at h
  cases hact : act m with
  | ok u t =>
    rw [hact] at h
    cases h
    exact ⟨rfl, rfl⟩
  | error fault t =>
    rw [hact] at h
    cases h

/-- An instruction that holds the pointer is a jump or a halt. -/
theorem instruction_of_stay (h : obey cell m = .ok .stay n) :
    cell.instruction = .jump ∨ cell.instruction = .halt := by
  rw [obey] at h
  cases hi : cell.instruction with
  | jump => exact .inl rfl
  | halt => exact .inr rfl
  | blank => rw [hi] at h; cases h
  | endOfLine | endOfInput => rw [hi] at h; cases h
  -- Every other instruction is an action after which the pointer goes on.
  | _ =>
    rw [hi] at h
    exact nomatch (thenAdvance_ok h).1

end Fish.Machine
