import Fish.Proofs.Shortfall
import Fish.Proofs.Steps

/-!
# When a cell faults, and what a fault leaves behind

`Cell.Faults` lists the ways in which a cell that is obeyed can fault: too few values, a count that
no stack can serve, a divisor that is zero, a cell without a meaning, the fault of the reader, and
an output that refuses. With each way it says how many values the active stack has lost from its
top by then. Nothing else of the machine is touched.

Main lemmas:

* `Machine.obey_error`          every fault of a cell is one of the listed ones
* `Machine.obey_of_faults`      every listed one is a fault of the cell
* `Machine.step_error_cases`    how a step that faults has come to it
* `Machine.step_eq_error_iff`   when a step faults, and the machine that it leaves
-/

namespace Fish

/-! ## The conditions -/

/-- The whole part of a value is more than a number. -/
def Binary64.Exceeds (available : Nat) : Binary64 → Prop
  | nan => False
  | infinite negative => negative = false
  | finite negative units _ => negative = false ∧ available < units / unitsPerOne

/-- What an instruction writes for the value that it has popped; most write nothing. -/
def Instruction.written? : Instruction → Binary64 → Option String
  | writeChar, value => some (String.singleton value.toChar)
  | writeNumber, value => some value.text
  | _, _ => none

/-- The ways in which a cell that is obeyed can fault, given the active stack, the input and the
    output, and the number of values that the stack has lost from its top by then. -/
inductive Cell.Faults (cell : Cell) (s : Stack) (input : Input) (out : Output) :
    Fault → Nat → Prop
  /-- There are too few values. -/
  | tooFew :
    s.size < cell.instruction.valuesNeeded s →
    Faults cell s input out (cell.instruction.shortfall s.size)
      (cell.instruction.lostByShortfall s.size)
  /-- The count of values for a new stack is below zero or above what is left. -/
  | noSuchCount {count : Binary64} {rest : List Binary64} :
    cell.instruction = .stack .openStack → s.values = count :: rest →
    count.isBelowZero = true ∨ count.Exceeds rest.length →
    Faults cell s input out
      (.stackUnderflow (count.toIntWithin 0 Stack.greatestCount).toNat rest.length) 1
  /-- The divisor is a zero of either sign. -/
  | zeroDivisor {x y : Binary64} {rest : List Binary64} :
    cell.instruction = .operator .div ∨ cell.instruction = .operator .mod →
    s.values = x :: y :: rest → x.isZero = true →
    Faults cell s input out .divisionByZero 2
  /-- The cell is the mark of a line's or the input's end. -/
  | noInstruction :
    cell.instruction = .endOfLine ∨ cell.instruction = .endOfInput →
    Faults cell s input out (.invalidInstruction cell) 0
  /-- The reader faults. -/
  | reader {fault : Fault} {rest : Input} :
    cell.instruction = .readNumber → input.readNumber = .error fault rest →
    Faults cell s input out fault 0
  /-- The output refuses what the instruction writes. -/
  | refusedWrite {value : Binary64} {rest : List Binary64} {text : String} :
    cell.instruction.written? value = some text → s.values = value :: rest →
    out.hasRoom text = false →
    Faults cell s input out (.io "sink full") 1
  /-- The output cannot be flushed at the end of the program. -/
  | refusedFlush {reason : String} :
    cell.instruction = .halt → out.flushDefect = some reason →
    Faults cell s input out (.io reason) 0

/-- The input after a cell that faults: only the reader takes from it. -/
def Cell.inputLeft (cell : Cell) (input : Input) : Input :=
  if cell.instruction = .readNumber then input.readNumber.state else input

/-- Only a quotient or remainder can fail, and only for a divisor that is zero. -/
theorem Operator.apply_eq_error_iff {op : Operator} {y x : Binary64} {fault : Fault} :
    op.apply y x = .error fault ↔
      (op = .div ∨ op = .mod) ∧ x.isZero = true ∧ fault = .divisionByZero := by
  -- The other operators have a value for all operands.
  cases op with
  | div | mod =>
    cases hx : x.isZero <;> simp [apply, hx, eq_comm (a := fault)]
  | _ => simp [apply]

/-- A count cannot be served exactly if it is below zero or above what there is. -/
theorem Stack.countWithin_eq_none_iff {count : Binary64} {available : Nat} :
    countWithin count available = none ↔ count.isBelowZero = true ∨ count.Exceeds available := by
  -- A count that is no number asks for nothing, one that is infinite for too much or for less than
  -- nothing.
  cases count with
  | nan => simp [countWithin, Binary64.isBelowZero, Binary64.Exceeds]
  | infinite negative =>
    cases negative <;> simp [countWithin, Binary64.isBelowZero, Binary64.Exceeds]
  | finite negative units h =>
    simp only [countWithin, Binary64.isBelowZero, Binary64.Exceeds]
    generalize hw : units / Binary64.unitsPerOne = whole
    cases negative with
    | false => simp
    | true =>
      -- A negative zero asks for nothing, like the other zero.
      by_cases hu : units = 0
      · have hz : whole = 0 := by rw [← hw, hu, Nat.zero_div]
        simp [hu, hz]
      · simp [hu]

namespace Machine

variable {m n : Machine} {cell : Cell} {fault : Fault}

/-- The machine after a fault that has cost the active stack some of its values, whatever its
    status is. -/
def losing (m : Machine) (cell : Cell) (lost : Nat) (status : Status) : Machine :=
  { m.withValues (m.stack.values.drop lost) with status, input := cell.inputLeft m.input }

/-- The machine `n` is what a fault of the cell leaves of `m`. -/
def FaultsInto (m : Machine) (cell : Cell) (fault : Fault) (n : Machine) : Prop :=
  ∃ lost, cell.Faults m.stack m.input m.output fault lost ∧
    ∀ status, { n with status } = m.losing cell lost status

variable {i : Instruction}

/-- Any instruction but the one that reads leaves the input as it was. -/
theorem losing_of_not_reading (lost : Nat) (hread : cell.instruction ≠ .readNumber)
    (status : Status) :
    { m.withValues (m.stack.values.drop lost) with status } = m.losing cell lost status := by
  rw [losing, Cell.inputLeft, if_neg hread]
  rfl

/-- A fault after which the values are those below the lost ones. -/
theorem FaultsInto.of_lost {lost : Nat} {rest : List Binary64}
    (h : cell.Faults m.stack m.input m.output fault lost)
    (hdrop : m.stack.values.drop lost = rest) (hread : cell.instruction ≠ .readNumber) :
    m.FaultsInto cell fault (m.withValues rest) := by
  subst hdrop
  exact ⟨lost, h, losing_of_not_reading lost hread⟩

/-- A fault that changes nothing but the status costs no value. -/
theorem FaultsInto.of_unchanged (h : cell.Faults m.stack m.input m.output fault 0)
    (hread : cell.instruction ≠ .readNumber) (status : Status) :
    m.FaultsInto cell fault { m with status } :=
  ⟨0, h, losing_of_not_reading 0 hread⟩

/-- An instruction that finds too few values and loses them all. -/
theorem FaultsInto.of_size_lt (hi : cell.instruction = i)
    (hsize : m.stack.size < i.valuesNeeded m.stack)
    (hlost : i.lostByShortfall m.stack.size = m.stack.size) (hread : i ≠ .readNumber) :
    m.FaultsInto cell (i.shortfall m.stack.size) (m.withValues []) := by
  subst hi
  have hfew : cell.Faults m.stack m.input m.output _ _ := .tooFew hsize
  rw [hlost] at hfew
  exact .of_lost hfew List.drop_length hread

/-- An instruction that finds no value where it needs one. -/
theorem FaultsInto.of_empty (hi : cell.instruction = i) (hvalues : m.stack.values = [])
    (hneeds : 0 < i.valuesNeeded m.stack) (hread : i ≠ .readNumber) :
    m.FaultsInto cell (i.shortfall 0) m := by
  have hsize : m.stack.size = 0 := by rw [Stack.size, hvalues]; rfl
  -- From an empty stack nothing can be lost, not even by an instruction that loses all.
  have hlost : i.lostByShortfall m.stack.size = m.stack.size := by
    rw [hsize]
    cases i with
    | stack command => cases command <;> rfl
    | _ => rfl
  have hfault := FaultsInto.of_size_lt hi (hsize ▸ hneeds) hlost hread
  rwa [withValues_eq_self hvalues, hsize] at hfault

/-! ## Every fault is one of these -/

/-- The faults of an operator: two values are gone, or the only one. -/
theorem operate_error {op : Operator} (hi : cell.instruction = .operator op)
    (h : onTower (Tower.operate op) m = .error fault n) : m.FaultsInto cell fault n := by
  obtain ⟨s, hs, rfl⟩ := onStack_error h
  rw [Stack.operate] at hs
  split at hs
  · rename_i x y rest hvalues
    -- The operands are gone before it turns out that the operator has no value for them.
    cases happly : op.apply y x with
    | ok value =>
      rw [happly] at hs
      cases hs
    | error e =>
      rw [happly] at hs
      cases hs
      obtain ⟨hop, hzero, rfl⟩ := Operator.apply_eq_error_iff.1 happly
      have hop : cell.instruction = .operator .div ∨ cell.instruction = .operator .mod := by
        simpa [hi] using hop
      exact .of_lost (.zeroDivisor hop hvalues hzero) (by rw [hvalues]; rfl) (by simp [hi])
  · -- Both values were to be taken together, and what there was is gone.
    rename_i hshort
    cases hs
    exact .of_size_lt hi (Stack.size_lt_two hshort) rfl (by simp)

/-- The faults of a new stack: there is no count, or the count is gone. -/
theorem openStack_error (hi : cell.instruction = .stack .openStack)
    (h : onTower Tower.openStack m = .error fault n) : m.FaultsInto cell fault n := by
  -- There are three outcomes, and two of them are faults.
  rw [openStack_apply] at h
  split at h
  · rename_i hvalues
    cases h
    exact .of_empty hi hvalues Nat.one_pos (by simp)
  · rename_i count rest hvalues
    split at h
    · rename_i hcount
      cases h
      have hcount := Stack.countWithin_eq_none_iff.1 hcount
      exact .of_lost (.noSuchCount hi hvalues hcount) (by rw [hvalues]; rfl) (by simp [hi])
    · cases h

/-- The faults of the commands that rearrange the stacks. -/
theorem perform_error {command : StackCommand} (hi : cell.instruction = .stack command)
    (h : onTower (Tower.perform command) m = .error fault n) : m.FaultsInto cell fault n := by
  -- The commands are grouped by how many values they take and by when they take them.
  cases command with
  | openStack => exact openStack_error hi h
  -- These need no values.
  | closeStack | reverse | length => cases h
  -- These need one value, and look at the top for it.
  | duplicate | shiftRight | remove =>
    obtain ⟨s, hs, rfl⟩ := onStack_error h
    simp only [Stack.duplicate, Stack.shiftRight, discard_pop_apply] at hs
    split at hs
    · rename_i hvalues
      cases hs
      exact .of_empty hi hvalues Nat.one_pos (by simp)
    · cases hs
  -- This one looks at the bottom, where there is a value if there is any.
  | shiftLeft =>
    obtain ⟨s, hs, rfl⟩ := onStack_error h
    rw [Stack.shiftLeft] at hs
    split at hs
    · rename_i hlast
      cases hs
      exact .of_empty hi (List.getLast?_eq_none_iff.1 hlast) Nat.one_pos (by simp)
    · cases hs
  | swap =>
    obtain ⟨s, hs, rfl⟩ := onStack_error h
    rw [Stack.swap] at hs
    split at hs
    · cases hs
    · -- The only command that looks before it takes: the stack is as it was.
      rename_i hshort
      cases hs
      have hfew : cell.Faults m.stack m.input m.output _ _ :=
        .tooFew (by rw [hi]; exact Stack.size_lt_two hshort)
      rw [hi] at hfew
      exact .of_unchanged hfew (by simp [hi]) m.status
  -- Three values are taken together, and what there is of them is gone.
  | topShift =>
    obtain ⟨s, hs, rfl⟩ := onStack_error h
    rw [Stack.topShift] at hs
    split at hs
    · cases hs
    · rename_i hshort
      cases hs
      exact .of_size_lt hi (Stack.size_lt_three hshort) rfl (by simp)
  | register =>
    obtain ⟨s, hs, rfl⟩ := onStack_error h
    rw [Stack.toggleRegister] at hs
    split at hs
    · cases hs
    · cases hs
    · -- Only a register that is empty needs a value.
      rename_i hregister hvalues
      cases hs
      refine .of_empty hi hvalues ?_ (by simp)
      simp [Instruction.valuesNeeded, hregister]

/-- The faults of an instruction that writes: there is no value, or the value is gone. -/
theorem popAndWrite_error {text : Binary64 → String}
    (hi : cell.instruction = .writeChar ∨ cell.instruction = .writeNumber)
    (htext : ∀ value, cell.instruction.written? value = some (text value))
    (h : (pop >>= fun value => onOutput (Output.write (text value))) m = .error fault n) :
    m.FaultsInto cell fault n := by
  -- The fault is that of the pop, or that of the write after it.
  rw [popAndWrite_apply] at h
  split at h
  · rename_i hvalues
    cases h
    rcases hi with hi | hi
    · exact .of_empty hi hvalues Nat.one_pos (by simp)
    · exact .of_empty hi hvalues Nat.one_pos (by simp)
  · rename_i value rest hvalues
    split at h
    · cases h
    · rename_i hroom
      cases h
      have hroom := Bool.eq_false_iff.2 hroom
      exact .of_lost (.refusedWrite (htext value) hvalues hroom) (by rw [hvalues]; rfl)
        (by rcases hi with hi | hi <;> simp [hi])

/-- The fault of a halt: the output cannot be flushed. -/
theorem halt_error (hi : cell.instruction = .halt) (h : halt m = .error fault n) :
    m.FaultsInto cell fault n := by
  -- The status is set before the flush, so the machine has halted when the flush fails.
  rw [halt_apply] at h
  split at h
  · cases h
  · rename_i reason hflush
    cases h
    exact .of_unchanged (.refusedFlush hi hflush) (by simp [hi]) .halted

/-- Every fault of an instruction is one of the listed ones. -/
theorem obey_error (h : obey cell m = .error fault n) : m.FaultsInto cell fault n := by
  rw [obey] at h
  cases hi : cell.instruction with
  -- Instructions that cannot fault at all.
  | turn | mirror | skip | digit | quote | blank => rw [hi] at h; cases h
  -- Instructions that fault on the tower, as the lemmas above say.
  | operator op =>
    rw [hi] at h
    exact operate_error hi (thenAdvance_error h)
  | stack command =>
    rw [hi] at h
    exact perform_error hi (thenAdvance_error h)
  -- A single pop.
  | skipIfZero =>
    rw [hi] at h
    have h := thenAdvance_error h
    rw [skipIfZero_apply] at h
    split at h
    · rename_i hvalues
      cases h
      exact .of_empty hi hvalues Nat.one_pos (by simp)
    · cases h
  | jump =>
    rw [hi] at h
    simp only [jump_apply] at h
    split at h
    · cases h
    · -- The second pop fails as well when the first one does, so both shortfalls end alike.
      rename_i hshort
      cases h
      exact .of_size_lt hi (Stack.size_lt_two hshort) rfl (by simp)
  -- The same two pops, with nothing to be lost after them; a poke has a third one.
  | peek =>
    rw [hi] at h
    have h := thenAdvance_error h
    rw [peek_apply] at h
    split at h
    · cases h
    · rename_i hshort
      cases h
      exact .of_size_lt hi (Stack.size_lt_two hshort) rfl (by simp)
  | poke =>
    rw [hi] at h
    have h := thenAdvance_error h
    rw [poke_apply] at h
    split at h
    · cases h
    · rename_i hshort
      cases h
      exact .of_size_lt hi (Stack.size_lt_three hshort) rfl (by simp)
  -- The world outside: an output that refuses, and an input that fails.
  | writeChar =>
    rw [hi] at h
    exact popAndWrite_error (.inl hi) (fun _ => by rw [hi]; rfl) (thenAdvance_error h)
  | writeNumber =>
    rw [hi] at h
    exact popAndWrite_error (.inr hi) (fun _ => by rw [hi]; rfl) (thenAdvance_error h)
  | readNumber =>
    rw [hi] at h
    have h := thenAdvance_error h
    rw [readNumber_apply] at h
    split at h
    · cases h
    · -- The reader has moved on in the input before it failed.
      rename_i input hread
      cases h
      refine ⟨0, .reader hi hread, fun status => ?_⟩
      rw [losing, Cell.inputLeft, if_pos hi, hread]
      rfl
  | halt =>
    rw [hi] at h
    simp only [Action.bind_apply] at h
    cases hhalt : halt m with
    | ok u t => rw [hhalt] at h; cases h
    | error e t =>
      rw [hhalt] at h
      cases h
      exact halt_error hi hhalt
  | endOfLine | endOfInput =>
    rw [hi] at h
    cases h
    exact .of_unchanged (.noInstruction (by simp [hi])) (by simp [hi]) m.status

/-- A cell that faults is obeyed; between quotes only a quote is, and nothing else can fault. -/
theorem execute_error (h : execute cell m = .error fault n) :
    (m.quoting = false ∨ cell.instruction = .quote) ∧ m.FaultsInto cell fault n := by
  rcases obeying_or_quoting m cell with hobey | ⟨hq, hcell⟩
  · rw [execute_of_obeying hobey] at h
    exact ⟨hobey, obey_error h⟩
  · rw [execute_of_quoting hq hcell] at h
    cases h

/-- A fault leaves the pointer where it was and as it was going. -/
theorem FaultsInto.pointer_eq (h : m.FaultsInto cell fault n) : n.pointer = m.pointer := by
  obtain ⟨lost, -, hn⟩ := h
  have hlosing := congrArg pointer (hn n.status)
  exact hlosing

/-- A fault neither begins nor ends a leap. -/
theorem FaultsInto.leaping_eq (h : m.FaultsInto cell fault n) : n.leaping = m.leaping := by
  obtain ⟨lost, -, hn⟩ := h
  have hlosing := congrArg leaping (hn n.status)
  exact hlosing

/-- A step that faults has met one of the listed faults of its cell, or there is no cell, and it is
    the flush that has failed. -/
theorem step_error_cases (h : m.step = .error fault n) :
    (∃ cell lost, m.cell? = some cell ∧ cell.Faults m.stack m.input m.output fault lost ∧
      n = m.counted.losing cell lost (.faulted fault.kind)) ∨
    (∃ reason, m.cell? = none ∧ fault = .io reason ∧ n = { m with status := .faulted .io }) := by
  rcases step_cases (running_of_step_error h) with ⟨cell, motion, t, -, -, hstep⟩ |
    ⟨cell, fault', t, hc, he, hstep⟩ | ⟨-, -, hstep⟩ | ⟨reason, hc, -, hstep⟩
  · rw [hstep] at h
    cases h
  · rw [hstep] at h
    cases h
    obtain ⟨-, lost, hfaults, hlosing⟩ := execute_error he
    exact .inl ⟨cell, lost, hc, hfaults, hlosing _⟩
  · rw [hstep] at h
    cases h
  · rw [hstep] at h
    cases h
    exact .inr ⟨reason, hc, rfl, rfl⟩

/-- A step that faults changes only the active stack, the input, the status and the count. -/
theorem step_error_keeps {p : Part} (h : m.step = .error fault n) (ha : p ≠ .active)
    (hi : p ≠ .input) (hs : p ≠ .status) (hsteps : p ≠ .steps) : p.view n = p.view m := by
  rcases step_error_cases h with ⟨cell, lost, -, -, rfl⟩ | ⟨reason, -, -, rfl⟩
  · cases p <;> first | rfl | contradiction
  · cases p <;> first | rfl | contradiction

/-! ## Every one of these is a fault -/

/-- Only two instructions write. -/
theorem instruction_of_written {value : Binary64} {text : String}
    (h : cell.instruction.written? value = some text) :
    cell.instruction = .writeChar ∧ text = String.singleton value.toChar ∨
      cell.instruction = .writeNumber ∧ text = value.text := by
  cases hi : cell.instruction with
  | writeChar =>
    rw [hi] at h
    exact .inl ⟨rfl, (Option.some.inj h).symm⟩
  | writeNumber =>
    rw [hi] at h
    exact .inr ⟨rfl, (Option.some.inj h).symm⟩
  | _ =>
    rw [hi] at h
    cases h

/-- Every listed fault is one that the cell commits, and it loses as many values as listed. -/
theorem obey_of_faults {lost : Nat} (h : cell.Faults m.stack m.input m.output fault lost) :
    ∃ n, obey cell m = .error fault n ∧
      ∀ status, { n with status } = m.losing cell lost status := by
  -- One case for each listed way: with its conditions the instruction can be computed.
  cases h with
  | tooFew hfew =>
    -- The reader needs no value, so it cannot be the instruction here.
    refine ⟨_, obey_of_tooFew hfew, losing_of_not_reading _ fun hi => ?_⟩
    rw [hi] at hfew
    exact Nat.not_lt_zero _ hfew
  | @noSuchCount count rest hi hvalues hcount =>
    refine ⟨_, ?_, losing_of_not_reading _ (by simp [hi])⟩
    have hnone := Stack.countWithin_eq_none_iff.2 hcount
    simp only [obey, hi, thenAdvance_apply, Tower.perform, openStack_apply, hvalues, hnone]
    rfl
  | @zeroDivisor x y rest hop hvalues hzero =>
    -- Both operators that divide behave alike.
    obtain ⟨op, hi, hop⟩ : ∃ op, cell.instruction = .operator op ∧ (op = .div ∨ op = .mod) := by
      rcases hop with hi | hi
      · exact ⟨.div, hi, .inl rfl⟩
      · exact ⟨.mod, hi, .inr rfl⟩
    have happly := Operator.apply_eq_error_iff (y := y).2 ⟨hop, hzero, rfl⟩
    refine ⟨_, ?_, losing_of_not_reading _ (by simp [hi])⟩
    simp only [obey, hi, thenAdvance_apply, Tower.operate, onStack_apply, Stack.operate, hvalues,
      happly]
    rfl
  | noInstruction hi =>
    refine ⟨m, ?_, losing_of_not_reading 0 (by rcases hi with hi | hi <;> simp [hi])⟩
    rcases hi with hi | hi <;> simp only [obey, hi] <;> rfl
  | @reader fault rest hi hread =>
    refine ⟨{ m with input := rest }, ?_, fun status => ?_⟩
    · simp only [obey, hi, thenAdvance_apply, readNumber_apply, hread]
    · rw [losing, Cell.inputLeft, if_pos hi, hread]
      rfl
  | @refusedWrite value rest text htext hvalues hroom =>
    refine ⟨m.withValues rest, ?_, ?_⟩
    · -- What was to be written tells which of the two instructions it is.
      rcases instruction_of_written htext with ⟨hi, rfl⟩ | ⟨hi, rfl⟩ <;>
        simp only [obey, hi, thenAdvance_apply, writeChar_eq, writeNumber_eq, popAndWrite_apply,
          hvalues, hroom] <;> rfl
    · have hread : cell.instruction ≠ .readNumber := by
        rcases instruction_of_written htext with ⟨hi, -⟩ | ⟨hi, -⟩ <;> simp [hi]
      have hdrop := losing_of_not_reading (m := m) 1 hread
      rwa [hvalues] at hdrop
  | @refusedFlush reason hi hflush =>
    refine ⟨{ m with status := .halted }, ?_, losing_of_not_reading 0 (by simp [hi])⟩
    simp only [obey, hi, Action.bind_apply, halt_apply, hflush]

/-! ## Steps that fault -/

/-- A step that meets one of the listed faults. -/
theorem step_error_of_faults {lost : Nat} (hrun : m.status = .running) (hc : m.cell? = some cell)
    (hobey : m.quoting = false ∨ cell.instruction = .quote)
    (h : cell.Faults m.stack m.input m.output fault lost) :
    m.step = .error fault (m.counted.losing cell lost (.faulted fault.kind)) := by
  obtain ⟨n, herror, hn⟩ := obey_of_faults (m := m.counted) h
  have hnext := executeNext_of_obeying hc hobey
  rw [step_of_error hrun (hnext.trans herror), hn]

/-- A step of a running machine on a grid with cells faults exactly if it obeys its cell and the
    cell faults in one of the listed ways. The machine that it leaves has lost the listed number of
    values from the top of the active stack and has counted the cell; apart from the input, which
    the reader has taken from, nothing else has changed. -/
theorem step_eq_error_iff (hrun : m.status = .running) (hgrid : m.grid.isEmpty = false) :
    ∃ cell, m.cell? = some cell ∧
      (m.quoting = true → cell.instruction ≠ .quote → ∃ n, m.step = .ok .running n) ∧
      ∀ fault n, m.step = .error fault n ↔
        (m.quoting = false ∨ cell.instruction = .quote) ∧
          ∃ lost, cell.Faults m.stack m.input m.output fault lost ∧
            n = { m with
              tower := { m.tower with
                active := { m.stack with values := m.stack.values.drop lost } }
              input := cell.inputLeft m.input
              steps := m.steps + 1
              status := .faulted fault.kind } := by
  obtain ⟨cell, hc⟩ := exists_cell hgrid
  have hnext := executeNext_of_cell hc
  refine ⟨cell, hc, fun hq hcell => ?_, fun fault n => ⟨fun herror => ?_, ?_⟩⟩
  · -- Between quotes the cell is pushed, which cannot go wrong and keeps the status.
    have hpush := hnext.trans (execute_of_quoting (m := m.counted) hq hcell)
    have hstep := step_of_ok hrun hpush
    rw [status_move] at hstep
    exact ⟨_, hrun ▸ hstep⟩
  · -- A fault of the step is one of its cell, which is one of those listed.
    cases he : execute cell m.counted with
    | ok motion t =>
      rw [step_of_ok hrun (hnext.trans he)] at herror
      cases herror
    | error e t =>
      rw [step_of_error hrun (hnext.trans he)] at herror
      cases herror
      obtain ⟨hobey, lost, hfaults, ht⟩ := execute_error he
      exact ⟨hobey, lost, hfaults, ht _⟩
  · rintro ⟨hobey, lost, hfaults, rfl⟩
    exact step_error_of_faults hrun hc hobey hfaults

/-- The quotient of one by zero: both values are gone. -/
theorem step_quotient_by_zero :
    let m := start (.ofRows [[.ofChar ',']]) [.ofNat 1, .ofNat 0] 0 {} {}
    m.status = .running ∧ m.grid.isEmpty = false ∧
      m.step = .error .divisionByZero
        { m with tower := .ofStack {}, steps := 1, status := .faulted .divisionByZero } := by
  intro m
  have hgrid : m.grid.isEmpty = false := by decide
  refine ⟨rfl, hgrid, ?_⟩
  obtain ⟨cell, hc, -, herror⟩ := step_eq_error_iff (m := m) rfl hgrid
  have hcell : m.cell? = some (.ofChar ',') := by decide
  obtain rfl := Option.some.inj (hc.symm.trans hcell)
  have hzero : (Binary64.ofNat 0).isZero = true := by decide +kernel
  exact (herror _ _).2 ⟨.inl rfl, 2, .zeroDivisor (.inl rfl) rfl hzero, rfl⟩

end Machine

end Fish
