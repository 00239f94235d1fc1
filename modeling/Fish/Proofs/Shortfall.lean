import Fish.Proofs.Execution

/-!
# Instructions that find too few values

`Instruction.valuesNeeded` is the number of values that an instruction needs on the active stack.
With fewer it faults; `Instruction.shortfall` is the fault, and `Instruction.lostByShortfall` tells
how many of the values are gone by then. Most instructions pop one value after the other and lose
what there is; only the exchange of two values looks before it takes.

Main lemma:

* `Machine.obey_of_tooFew`   an instruction that finds too few values faults, and loses them
-/

namespace Fish

/-- The number of values that an instruction needs on the active stack. Only an empty register has
    to be filled from there. -/
def Instruction.valuesNeeded (s : Stack) : Instruction → Nat
  | operator _ => 2
  | stack .swap => 2
  | jump => 2
  | peek => 2
  | stack .topShift => 3
  | poke => 3
  | skipIfZero => 1
  | stack .duplicate => 1
  | stack .remove => 1
  | stack .shiftRight => 1
  | stack .shiftLeft => 1
  | stack .openStack => 1
  | stack .register => if s.register = none then 1 else 0
  | writeChar => 1
  | writeNumber => 1
  | _ => 0

/-- The fault of an instruction that finds too few values. Those that take their values together
    say how many there were; the others fault at the pop that finds nothing. -/
def Instruction.shortfall (available : Nat) : Instruction → Fault
  | operator _ => .stackUnderflow 2 available
  | stack .swap => .stackUnderflow 2 available
  | stack .topShift => .stackUnderflow 3 available
  | _ => .stackUnderflow 1 0

/-- How many values are lost to an instruction that finds too few: all, unless it looks before it
    takes. -/
def Instruction.lostByShortfall (available : Nat) : Instruction → Nat
  | stack .swap => 0
  | _ => available

/-- No instruction needs more than three values. -/
theorem Instruction.valuesNeeded_le_three (i : Instruction) (s : Stack) : i.valuesNeeded s ≤ 3 := by
  cases i with
  | stack command =>
    cases command with
    | register =>
      rw [Instruction.valuesNeeded]
      split <;> omega
    | _ => simp [Instruction.valuesNeeded]
  | _ => simp [Instruction.valuesNeeded]

/-! ## Stacks that are too short -/

namespace Stack

variable {s : Stack}

/-- A stack that does not begin with two values has fewer. -/
theorem size_lt_two (h : ∀ x y rest, s.values = x :: y :: rest → False) : s.size < 2 := by
  rw [size]
  match hv : s.values with
  | [] => simp
  | [_] => simp
  | x :: y :: rest => exact (h x y rest hv).elim

/-- A stack that does not begin with three values has fewer. -/
theorem size_lt_three (h : ∀ x y z rest, s.values = x :: y :: z :: rest → False) : s.size < 3 := by
  rw [size]
  match hv : s.values with
  | [] => simp
  | [_] => simp
  | [_, _] => simp
  | x :: y :: z :: rest => exact (h x y z rest hv).elim

end Stack

namespace Machine

variable {m : Machine} {cell : Cell} {i : Instruction} {x y : Binary64}

/-! ## The faults, by the number of values that there are -/

/-- An instruction that needs a value faults on an empty stack. -/
theorem obey_of_empty (hi : cell.instruction = i) (hvalues : m.stack.values = [])
    (hneeds : 0 < i.valuesNeeded m.stack) : obey cell m = .error (i.shortfall 0) m := by
  -- A fault on an empty stack leaves the machine as it was, in whichever way it is written down.
  have hstack : { m.stack with values := [] } = m.stack := by rw [← hvalues]
  have hself : { m with tower := { m.tower with active := m.stack } } = m := rfl
  have hmachine : m.withValues [] = m := withValues_eq_self hvalues
  rw [obey, hi]
  cases i with
  | operator op =>
    simp only [thenAdvance_apply, Tower.operate, onStack_apply, Stack.operate, Stack.size, hvalues,
      List.length_nil, hstack, hself, Instruction.shortfall]
  | stack command =>
    cases command with
    -- Commands that do more than to look at the top: one counts values, one has a register besides.
    | openStack =>
      simp only [thenAdvance_apply, Tower.perform, openStack_apply, hvalues, Instruction.shortfall]
    | register =>
      have hregister : m.stack.register = none := by
        rw [Instruction.valuesNeeded] at hneeds
        split at hneeds
        · assumption
        · omega
      simp only [thenAdvance_apply, Tower.perform, onStack_apply, Stack.toggleRegister, hregister,
        hvalues, hself, Instruction.shortfall]
    -- These need nothing, so they are not meant.
    | closeStack | reverse | length => exact absurd hneeds (Nat.lt_irrefl 0)
    | duplicate | remove | shiftRight | shiftLeft | swap | topShift =>
      simp only [thenAdvance_apply, Tower.perform, onStack_apply, Stack.duplicate,
        discard_pop_apply, Stack.shiftRight, Stack.shiftLeft, Stack.swap, Stack.topShift,
        Stack.size, hvalues, List.length_nil, List.getLast?_nil, hstack, hself,
        Instruction.shortfall]
  -- Instructions that pop one value after the other fault at the first pop.
  | skipIfZero => simp only [thenAdvance_apply, skipIfZero_apply, hvalues, Instruction.shortfall]
  | jump => simp only [jump_apply, hvalues, hmachine, Instruction.shortfall]
  | peek => simp only [thenAdvance_apply, peek_apply, hvalues, hmachine, Instruction.shortfall]
  | poke => simp only [thenAdvance_apply, poke_apply, hvalues, hmachine, Instruction.shortfall]
  | writeChar | writeNumber =>
    simp only [thenAdvance_apply, writeChar_eq, writeNumber_eq, popAndWrite_apply, hvalues,
      Instruction.shortfall]
  | _ => exact absurd hneeds (Nat.lt_irrefl 0)

/-- An instruction that needs two values faults on a single one. -/
theorem obey_of_single (hi : cell.instruction = i) (hvalues : m.stack.values = [x])
    (hneeds : 1 < i.valuesNeeded m.stack) :
    obey cell m = .error (i.shortfall 1) (m.withValues ([x].drop (i.lostByShortfall 1))) := by
  have hmachine : m.withValues [x] = m := withValues_eq_self hvalues
  rw [obey, hi]
  cases i with
  | operator op =>
    simp only [thenAdvance_apply, Tower.operate, onStack_apply, Stack.operate, Stack.size, hvalues]
    rfl
  | stack command =>
    cases command with
    -- The swap looks first and keeps the value; the other shift takes what there is.
    | swap =>
      simp only [thenAdvance_apply, Tower.perform, onStack_apply, Stack.swap, Stack.size, hvalues]
      exact congrArg _ hmachine.symm
    | topShift =>
      simp only [thenAdvance_apply, Tower.perform, onStack_apply, Stack.topShift, Stack.size,
        hvalues]
      rfl
    | register =>
      rw [Instruction.valuesNeeded] at hneeds
      split at hneeds <;> omega
    | _ => simp [Instruction.valuesNeeded] at hneeds
  -- The first pop has succeeded, so the value is gone when the second one fails.
  | jump => simp only [jump_apply, hvalues]; rfl
  | peek => simp only [thenAdvance_apply, peek_apply, hvalues]; rfl
  | poke => simp only [thenAdvance_apply, poke_apply, hvalues]; rfl
  | _ => simp [Instruction.valuesNeeded] at hneeds

/-- An instruction that needs three values faults on two. -/
theorem obey_of_pair (hi : cell.instruction = i) (hvalues : m.stack.values = [x, y])
    (hneeds : 2 < i.valuesNeeded m.stack) :
    obey cell m = .error (i.shortfall 2) (m.withValues ([x, y].drop (i.lostByShortfall 2))) := by
  rw [obey, hi]
  -- Only two instructions need a third value.
  cases i with
  | stack command =>
    cases command with
    | topShift =>
      simp only [thenAdvance_apply, Tower.perform, onStack_apply, Stack.topShift, Stack.size,
        hvalues]
      rfl
    | register =>
      rw [Instruction.valuesNeeded] at hneeds
      split at hneeds <;> omega
    | _ => simp [Instruction.valuesNeeded] at hneeds
  | poke => simp only [thenAdvance_apply, poke_apply, hvalues]; rfl
  | _ => simp [Instruction.valuesNeeded] at hneeds

/-- Too few values are a fault. -/
theorem obey_of_tooFew (h : m.stack.size < cell.instruction.valuesNeeded m.stack) :
    obey cell m = .error (cell.instruction.shortfall m.stack.size)
      (m.withValues (m.stack.values.drop (cell.instruction.lostByShortfall m.stack.size))) := by
  -- With three values or more none is missing, which leaves three shapes of the stack.
  have hthree := cell.instruction.valuesNeeded_le_three m.stack
  rw [Stack.size] at h ⊢
  match hvalues : m.stack.values with
  | [] =>
    rw [hvalues] at h
    rw [List.drop_nil, withValues_eq_self hvalues]
    exact obey_of_empty rfl hvalues h
  | [x] =>
    rw [hvalues] at h
    exact obey_of_single rfl hvalues h
  | [x, y] =>
    rw [hvalues] at h
    exact obey_of_pair rfl hvalues h
  | x :: y :: z :: rest =>
    rw [hvalues] at h
    simp only [List.length_cons] at h
    omega

end Machine

end Fish
