import Fish.Proofs.ParsedPrograms

/-!
# What underflow reports say

An underflow reports how many values were required and how many were available. More were required
than there were, with one exception: a stack that is to be split by a count below zero. No stack
has that many values, and as a report has no number for it, it says that none was required.

A report has no number beyond the range of an unsigned word of 64 bits either, so the stacks here
have fewer values than that; no memory holds more.

Main lemmas:

* `Stack.Operation.reportsTruly`   the reports of the operations of a stack
* `Tower.Operation.reportsTruly`   those of a tower
* `Cell.Faults.reportsTruly`       those of a cell that is obeyed
* `Machine.underflow_reports`      all of them together, for every step of a machine
-/

namespace Fish

/-! ## Counts that cannot be served -/

/-- A value below zero is nothing within a range that begins there. -/
theorem Binary64.toIntWithin_of_isBelowZero {value : Binary64} (greatest : Int)
    (h : value.isBelowZero = true) : value.toIntWithin 0 greatest = 0 := by
  cases value with
  | nan => rfl
  | infinite negative =>
    simp only [isBelowZero] at h
    simp only [toIntWithin, h, if_true]
  | finite negative units hunits =>
    simp only [isBelowZero, Bool.and_eq_true] at h
    simp only [toIntWithin, h.1, if_true]
    generalize units / unitsPerOne = whole
    omega

/-- A value that exceeds a number within a range still does when it is brought into the range. -/
theorem Binary64.lt_toIntWithin_of_exceeds {value : Binary64} {available : Nat} {greatest : Int}
    (hless : available < greatest) (h : value.Exceeds available) :
    available < value.toIntWithin 0 greatest := by
  cases value with
  | nan => exact h.elim
  | infinite negative =>
    simp only [Exceeds] at h
    simpa only [toIntWithin, h, Bool.false_eq_true, if_false] using hless
  | finite negative units hunits =>
    obtain ⟨hsign, hwhole⟩ := h
    simp only [toIntWithin, hsign, Bool.false_eq_true, if_false]
    generalize units / unitsPerOne = whole at hwhole ⊢
    omega

namespace Stack

variable {s : Stack} {required available : Nat}

/-- The value on top is below zero. -/
def hasNegativeCount (s : Stack) : Bool := s.top?.any Binary64.isBelowZero

/-- What an underflow of a stack reports: more values were required than there were, or else the
    stack was to be split by a count below zero, which is reported as zero. -/
def ReportsTruly (s : Stack) (splits : Prop) (required available : Nat) : Prop :=
  (¬(splits ∧ s.hasNegativeCount = true) → available < required) ∧
    (splits ∧ s.hasNegativeCount = true → required = 0)

/-- A shortage is reported truly, if the count of a split was not below zero. -/
theorem ReportsTruly.of_lt {splits : Prop} (h : available < required)
    (hcount : splits → s.hasNegativeCount = false) : s.ReportsTruly splits required available := by
  refine ⟨fun _ => h, fun ⟨hsplits, hnegative⟩ => ?_⟩
  rw [hcount hsplits] at hnegative
  cases hnegative

/-- An empty stack has no count on top. -/
theorem hasNegativeCount_of_nil (h : s.values = []) : s.hasNegativeCount = false := by
  rw [hasNegativeCount, top?, h]
  rfl

/-- A count that cannot be served is reported as it is, unless it is below zero. -/
theorem ReportsTruly.of_count {count : Binary64} {rest : List Binary64} {splits : Prop}
    (hsize : s.size < UInt64.size) (hvalues : s.values = count :: rest) (hsplits : splits)
    (h : count.isBelowZero = true ∨ count.Exceeds rest.length) :
    s.ReportsTruly splits (count.toIntWithin 0 greatestCount).toNat rest.length := by
  have hcount : s.hasNegativeCount = count.isBelowZero := by
    rw [hasNegativeCount, top?, hvalues]
    rfl
  have hword : UInt64.size = greatestCount + 1 := rfl
  have hroom : rest.length < greatestCount := by
    rw [size, hvalues, List.length_cons] at hsize
    omega
  rw [ReportsTruly, hcount]
  -- A count that is not below zero exceeds the values, also when it is brought into the range of a
  -- report.
  refine ⟨fun hnot => ?_, fun hnegative => ?_⟩
  · have hexceeds := h.resolve_left fun hnegative => hnot ⟨hsplits, hnegative⟩
    have hless := Binary64.lt_toIntWithin_of_exceeds hroom hexceeds
    omega
  · rw [Binary64.toIntWithin_of_isBelowZero _ hnegative.2]
    rfl

/-! ## The operations of a stack -/

/-- The operations of a stack, with what they are given. -/
inductive Operation
  | push (value : Binary64)
  | pushAll (values : List Binary64)
  | pop
  | popN (n : Nat)
  | popAll
  | duplicate
  | swap
  | shiftRight
  | shiftLeft
  | topShift
  | reverse
  | clear
  | pushSize
  | toggleRegister
  | splitOff
  | absorb (child : Stack)
  | operate (op : Operator)

/-- Carries out an operation; a value that it gives is dropped. -/
def Operation.perform : Operation → Action Stack Unit
  | push value => Stack.push value
  | pushAll values => Stack.pushAll values
  | pop => discard Stack.pop
  | popN n => discard (Stack.popN n)
  | popAll => discard Stack.popAll
  | duplicate => Stack.duplicate
  | swap => Stack.swap
  | shiftRight => Stack.shiftRight
  | shiftLeft => Stack.shiftLeft
  | topShift => Stack.topShift
  | reverse => Stack.reverse
  | clear => Stack.clear
  | pushSize => Stack.pushSize
  | toggleRegister => Stack.toggleRegister
  | splitOff => discard Stack.splitOff
  | absorb child => modify fun s => s.absorb child
  | operate op => Stack.operate op

/-- A stack is split by a count that can be served, or the count is reported. -/
theorem splitOff_reportsTruly {splits : Prop} {t : Stack} (hsize : s.size < UInt64.size)
    (hsplits : splits) (h : splitOff s = .error (.stackUnderflow required available) t) :
    s.ReportsTruly splits required available := by
  rw [splitOff] at h
  split at h
  · rename_i hvalues
    cases h
    exact .of_lt Nat.one_pos fun _ => hasNegativeCount_of_nil hvalues
  · rename_i count rest hvalues
    split at h
    · rename_i hnone
      cases h
      exact .of_count hsize hvalues hsplits (countWithin_eq_none_iff.1 hnone)
    · cases h

/-- An operation that splits nothing reports a shortage. -/
theorem Operation.reportsTruly_of_ne {op : Operation} (hlt : available < required)
    (hop : op ≠ .splitOff) : s.ReportsTruly (op = .splitOff) required available :=
  .of_lt hlt fun heq => absurd heq hop

/-- The reports of the operations of a stack. -/
theorem Operation.reportsTruly {op : Operation} {t : Stack} (hsize : s.size < UInt64.size)
    (h : op.perform s = .error (.stackUnderflow required available) t) :
    s.ReportsTruly (op = .splitOff) required available := by
  -- Each operation that can report says how many values it needs, and fails only with fewer.
  cases op with
  | push | pushAll | popAll | reverse | clear | pushSize | absorb => cases h
  | splitOff => exact splitOff_reportsTruly hsize rfl (Action.error_of_discard h)
  | pop =>
    have h := Action.error_of_discard h
    rw [Stack.pop] at h
    split at h <;> cases h
    exact Operation.reportsTruly_of_ne Nat.one_pos (by intro hop; cases hop)
  | popN n =>
    have h := Action.error_of_discard h
    rw [Stack.popN] at h
    split at h
    · cases h
    · rename_i hfew
      cases h
      exact Operation.reportsTruly_of_ne (Nat.lt_of_not_le hfew) (by intro hop; cases hop)
  | duplicate | shiftRight | shiftLeft | toggleRegister =>
    -- One value is needed, and there is none.
    simp only [perform, Stack.duplicate, Stack.shiftRight, Stack.shiftLeft,
      Stack.toggleRegister] at h
    split at h <;> cases h
    exact Operation.reportsTruly_of_ne Nat.one_pos (by intro hop; cases hop)
  | swap =>
    simp only [perform, Stack.swap] at h
    split at h
    · cases h
    · rename_i hshort
      cases h
      exact Operation.reportsTruly_of_ne (size_lt_two hshort) (by intro hop; cases hop)
  | topShift =>
    simp only [perform, Stack.topShift] at h
    split at h
    · cases h
    · rename_i hshort
      cases h
      exact Operation.reportsTruly_of_ne (size_lt_three hshort) (by intro hop; cases hop)
  | operate op =>
    simp only [perform, Stack.operate] at h
    split at h
    · rename_i x y rest hvalues
      cases happly : op.apply y x with
      | ok value =>
        rw [happly] at h
        cases h
      | error fault =>
        -- An operator that has its operands fails for another reason.
        obtain ⟨-, -, rfl⟩ := Operator.apply_eq_error_iff.1 happly
        rw [happly] at h
        cases h
    · rename_i hshort
      cases h
      exact Operation.reportsTruly_of_ne (size_lt_two hshort) (by intro hop; cases hop)

end Stack

/-! ## The operations of a tower -/

namespace Tower

variable {t u : Tower} {required available : Nat}

/-- The operations of a tower: those of the active stack, and the two that open and close one. -/
inductive Operation
  | active (op : Stack.Operation)
  | openStack
  | closeStack

/-- Carries out an operation. -/
def Operation.perform : Operation → Action Tower Unit
  | active op => onActive op.perform
  | openStack => Tower.openStack
  | closeStack => Tower.closeStack

/-- The operation splits the active stack. -/
def Operation.Splits (op : Operation) : Prop := op = .openStack ∨ op = .active .splitOff

/-- A fault of an action on the active stack is one of the stack. -/
theorem error_of_onActive {α : Type} {act : Action Stack α} {fault : Fault}
    (h : onActive act t = .error fault u) : ∃ s, act t.active = .error fault s := by
  simp only [onActive, Action.on] at h
  cases hact : act t.active with
  | ok a s =>
    rw [hact] at h
    cases h
  | error fault s =>
    rw [hact] at h
    cases h
    exact ⟨s, rfl⟩

/-- The reports of the operations of a tower are those of its active stack. -/
theorem Operation.reportsTruly {op : Operation} (hsize : t.active.size < UInt64.size)
    (h : op.perform t = .error (.stackUnderflow required available) u) :
    t.active.ReportsTruly op.Splits required available := by
  cases op with
  | closeStack => cases h
  | active op =>
    obtain ⟨s, hs⟩ := error_of_onActive h
    have hsplits : (Operation.active op).Splits ↔ op = .splitOff := by simp [Splits]
    rw [hsplits]
    exact Stack.Operation.reportsTruly hsize hs
  | openStack =>
    simp only [perform, Tower.openStack, Action.bind_apply] at h
    split at h
    · cases h
    · rename_i fault v hsplit
      cases h
      obtain ⟨s, hs⟩ := error_of_onActive hsplit
      exact Stack.splitOff_reportsTruly hsize (.inl rfl) hs

end Tower

/-! ## The steps of a machine -/

/-- An instruction that finds too few values reports a shortage that there is. -/
theorem Instruction.lt_of_shortfall {i : Instruction} {s : Stack} {required available : Nat}
    (hfew : s.size < i.valuesNeeded s)
    (h : i.shortfall s.size = .stackUnderflow required available) : available < required := by
  unfold shortfall at h
  split at h <;> cases h
  · exact hfew
  · exact hfew
  · exact hfew
  · exact Nat.one_pos

/-- The reports of a cell that is obeyed. -/
theorem Cell.Faults.reportsTruly {cell : Cell} {s : Stack} {input : Input} {out : Output}
    {fault : Fault} {lost required available : Nat} (hsize : s.size < UInt64.size)
    (h : cell.Faults s input out fault lost) (hfault : fault = .stackUnderflow required available) :
    s.ReportsTruly (cell.instruction = .stack .openStack) required available := by
  cases h with
  | tooFew hfew =>
    -- With too few values for a split there is none at all, so there is no count.
    refine .of_lt (Instruction.lt_of_shortfall hfew hfault) fun hi => ?_
    rw [hi] at hfew
    exact Stack.hasNegativeCount_of_nil (List.length_eq_zero_iff.1 (Nat.lt_one_iff.1 hfew))
  | noSuchCount hi hvalues hcount =>
    cases hfault
    exact .of_count hsize hvalues hi hcount
  | reader _ hread =>
    rcases Input.kind_of_readNumber hread with hkind | hkind <;> rw [hfault] at hkind <;>
      cases hkind
  | zeroDivisor | noInstruction | refusedWrite | refusedFlush => cases hfault

namespace Machine

/-- An underflow tells the truth, whatever operation of a stack or of a tower reports it, and
    whatever step of a machine: more values were required than there were. The exception is a stack
    that is to be split by a count below zero, where the report says that none was required. -/
theorem underflow_reports {required available : Nat} :
    (∀ (op : Stack.Operation) (s t : Stack), s.size < UInt64.size →
      op.perform s = .error (.stackUnderflow required available) t →
      s.ReportsTruly (op = .splitOff) required available) ∧
    (∀ (op : Tower.Operation) (t u : Tower), t.active.size < UInt64.size →
      op.perform t = .error (.stackUnderflow required available) u →
      t.active.ReportsTruly op.Splits required available) ∧
    ∀ m n : Machine, m.stack.size < UInt64.size →
      m.step = .error (.stackUnderflow required available) n →
      m.stack.ReportsTruly (∃ cell, m.cell? = some cell ∧ cell.instruction = .stack .openStack)
        required available := by
  refine ⟨fun op s t => Stack.Operation.reportsTruly, fun op t u => Tower.Operation.reportsTruly,
    fun m n hsize hstep => ?_⟩
  rcases step_error_cases hstep with ⟨cell, lost, hc, hfaults, -⟩ | ⟨reason, -, hfault, -⟩
  · have hsplits : (∃ other, m.cell? = some other ∧ other.instruction = .stack .openStack) ↔
        cell.instruction = .stack .openStack := by simp [hc]
    rw [hsplits]
    exact hfaults.reportsTruly hsize rfl
  · cases hfault

/-- An infinite count: as many values as a report can tell were required, and one there was. -/
theorem underflow_reports_of_infinity :
    let m := start (.ofRows [[.ofChar '[']]) [.ofNat 1, .infinite false] 0 {} {}
    m.stack.size < UInt64.size ∧
      ∃ n, m.step = .error (.stackUnderflow 0xffffffffffffffff 1) n ∧
        m.stack.ReportsTruly (∃ cell, m.cell? = some cell ∧
          cell.instruction = .stack .openStack) 0xffffffffffffffff 1 := by
  intro m
  have hsize : m.stack.size < UInt64.size := by decide
  have hcell : m.cell? = some (.ofChar '[') := rfl
  have hstep := step_error_of_faults (m := m) rfl hcell (.inl rfl)
    (.noSuchCount rfl rfl (.inr rfl))
  exact ⟨hsize, _, hstep, underflow_reports.2.2 m _ hsize hstep⟩

/-- A count of minus one: none was required, but one there was. -/
theorem underflow_report_of_negative_count :
    let m := start (.ofRows [[.ofChar '[']]) [.ofNat 1, (Binary64.ofNat 1).neg] 0 {} {}
    m.stack.size < UInt64.size ∧ ∃ n, m.step = .error (.stackUnderflow 0 1) n ∧ ¬1 < 0 := by
  intro m
  have hcell : m.cell? = some (.ofChar '[') := rfl
  have hcount : (Binary64.ofNat 1).neg.isBelowZero = true := by decide +kernel
  have hstep := step_error_of_faults (m := m) rfl hcell (.inl rfl)
    (.noSuchCount rfl rfl (.inl hcount))
  rw [Binary64.toIntWithin_of_isBelowZero _ hcount] at hstep
  exact ⟨by decide, _, hstep, by decide⟩

end Machine

end Fish
