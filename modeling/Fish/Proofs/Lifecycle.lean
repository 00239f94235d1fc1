import Fish.Proofs.Calls

/-!
# The life of a machine

A machine is running until a call ends execution: the call that halts it succeeds, and the call that
faults gives the fault whose kind becomes the status. From then on every call succeeds and leaves
the machine alone. A machine halts only if its output can be flushed.

Main lemmas:

* `step_outcome`, `runFor_outcome`   how a step and a limited run of a running machine can go
* `perform_of_not_running`           a machine that is not running is left alone
* `perform_outcome`                  a call on a running machine leaves it running or ends execution
* `History.lifecycle`                the calls of a history: one of them at most ends execution
-/

namespace Fish

/-- Only the two instructions that write change the output. -/
theorem Instruction.eq_write_of_output {i : Instruction} (h : Part.output ∈ i.writes) :
    i = .writeChar ∨ i = .writeNumber := by
  cases i with
  | writeChar => exact .inl rfl
  | writeNumber => exact .inr rfl
  | mirror mirror => cases mirror <;> simp [writes] at h
  | stack command => cases command <;> simp [writes] at h
  | _ => simp [writes] at h

namespace Machine

variable {m n : Machine} {cell : Cell} {fault : Fault} {call : Call} {result : Result}
  {es : List Exchange}

/-! ## A flush that fails fails forever -/

/-- Writing does not change whether the output can be flushed. -/
theorem flushDefect_popAndWrite (text : Binary64 → String) (m : Machine) :
    ((pop >>= fun value => onOutput (Output.write (text value))) m).state.output.flushDefect =
      m.output.flushDefect := by
  rw [popAndWrite_apply]
  split
  · rfl
  · split <;> rfl

/-- No cell changes whether the output can be flushed. -/
theorem flushDefect_execute (cell : Cell) (m : Machine) :
    (execute cell m).state.output.flushDefect = m.output.flushDefect := by
  -- Only a cell that writes touches the output at all, and it adds text to it.
  by_cases hwrites : Part.output ∈ m.writes cell
  · obtain ⟨hobey, hwrites⟩ := obeying_of_mem_writes hwrites nofun
    rw [execute_of_obeying hobey, obey]
    rcases Instruction.eq_write_of_output hwrites with hi | hi
    · have hkeep := flushDefect_popAndWrite (fun value => String.singleton value.toChar) m
      simp only [hi, thenAdvance_apply, writeChar_eq]
      split <;> rename_i heq <;> rwa [heq] at hkeep
    · have hkeep := flushDefect_popAndWrite Binary64.text m
      simp only [hi, thenAdvance_apply, writeNumber_eq]
      split <;> rename_i heq <;> rwa [heq] at hkeep
  · exact congrArg Output.flushDefect (execute_keeps hwrites)

/-- Neither does a step. -/
theorem flushDefect_next (m : Machine) : m.next.output.flushDefect = m.output.flushDefect := by
  refine next_of_execute (P := fun n => n.output.flushDefect = m.output.flushDefect) rfl
    (fun cell _ => flushDefect_execute cell m.counted) (fun n motion hn => ?_) fun n status hn => hn
  have hmove := move_keeps (p := .output) nofun nofun n motion
  exact (congrArg Output.flushDefect hmove).trans hn

/-! ## Steps and limited runs of a running machine -/

/-- How an operation on a running machine has gone: it reports the status that it has left, and a
    halt means that the output could be flushed, or it gives the fault that has become the
    status. -/
inductive Outcome : EStateM.Result Fault Machine Status → Prop
  | running {n : Machine} : n.status = .running → Outcome (.ok .running n)
  | halted {n : Machine} :
    n.status = .halted → n.output.flushDefect = none → Outcome (.ok .halted n)
  | faulted {fault : Fault} {n : Machine} :
    n.status = .faulted fault.kind → Outcome (.error fault n)

/-- A cell that succeeds keeps the status, or halts a machine whose output can be flushed. -/
theorem status_of_execute {motion : Motion} (h : execute cell m = .ok motion n) :
    n.status = m.status ∨ n.status = .halted ∧ n.output.flushDefect = none := by
  by_cases hwrites : Part.status ∈ m.writes cell
  · obtain ⟨hobey, hwrites⟩ := obeying_of_mem_writes hwrites nofun
    -- The halt sets the status first, and succeeds only if the flush does.
    have hhalt := Instruction.eq_halt_of_status hwrites
    rw [execute_of_obeying hobey, obey, hhalt] at h
    simp only [Action.bind_apply, halt_apply] at h
    cases hflush : m.output.flushDefect with
    | none =>
      rw [hflush] at h
      cases h
      exact .inr ⟨rfl, hflush⟩
    | some reason =>
      rw [hflush] at h
      cases h
  · have hkeep := execute_keeps hwrites
    rw [h] at hkeep
    exact .inl hkeep

/-- How a step of a running machine can go. -/
theorem step_outcome (hrun : m.status = .running) : Outcome m.step := by
  rcases step_cases hrun with ⟨cell, motion, n, -, he, hstep⟩ | ⟨cell, fault, n, -, -, hstep⟩ |
    ⟨-, hflush, hstep⟩ | ⟨reason, -, -, hstep⟩
  · -- The move changes neither the status nor the output.
    rw [hstep]
    have hmove := status_move n motion
    have houtput := move_keeps (p := .output) nofun nofun n motion
    rcases status_of_execute he with hstatus | ⟨hstatus, hflush⟩
    · have hstatus := hmove.trans (hstatus.trans hrun)
      rw [hstatus]
      exact .running hstatus
    · have hstatus := hmove.trans hstatus
      rw [hstatus]
      exact .halted hstatus ((congrArg Output.flushDefect houtput).trans hflush)
  · rw [hstep]
    exact .faulted rfl
  · rw [hstep]
    exact .halted rfl hflush
  · rw [hstep]
    exact .faulted rfl

/-- A machine that is not running has no budget to spend. -/
theorem runFor_of_not_running (h : m.status ≠ .running) (budget : Nat) :
    m.runFor budget = .ok m.status m := by
  cases budget with
  | zero => rfl
  | succ budget => simp only [runFor]

/-- How a limited run of a running machine can go. -/
theorem runFor_outcome (hrun : m.status = .running) (budget : Nat) :
    Outcome (m.runFor budget) := by
  -- By induction on the budget: the first step decides, or leaves a machine that is running.
  induction budget generalizing m with
  | zero =>
    simp only [runFor, hrun]
    exact .running hrun
  | succ budget ih =>
    simp only [runFor, hrun]
    have hstep := step_outcome hrun
    generalize m.step = r at hstep
    cases hstep with
    | running hn => exact ih hn
    | @halted n hn hflush =>
      have hstop : n.status ≠ .running := by simp [hn]
      -- What is left of the budget is not spent.
      simp only [runFor_of_not_running hstop budget, hn]
      exact .halted hn hflush
    | faulted hn => exact .faulted hn

/-- How an unlimited run of a running machine can end. -/
theorem Ends.outcome {r : EStateM.Result Fault Machine Unit} (h : Ends m r)
    (hrun : m.status = .running) :
    (∃ n, r = .ok () n ∧ n.status = .halted ∧ n.output.flushDefect = none) ∨
      ∃ fault n, r = .error fault n ∧ n.status = .faulted fault.kind := by
  -- By induction on the way to the end.
  induction h with
  | ended hstop => contradiction
  | faulted _ hstep => exact .inr ⟨_, _, rfl, status_of_step_error hstep⟩
  | @stepped m n status r _ hstep hends ih =>
    have houtcome := step_outcome hrun
    rw [hstep] at houtcome
    cases houtcome with
    | running hn => exact ih hn
    | halted hn hflush =>
      -- A halted machine has come to its end; it cannot take another step or fault.
      cases hends with
      | ended => exact .inl ⟨n, rfl, hn, hflush⟩
      | faulted hrun | stepped hrun => rw [hn] at hrun; cases hrun

/-! ## Calls -/

namespace Exchange

/-- The call has left its machine running, and reports that. -/
def LeavesRunning (e : Exchange) : Prop :=
  ∃ n, e.result = .ok (e.call.report .running) n ∧ n.status = .running

/-- The call has ended execution: it has halted the machine and reports that, or it gives the fault
    whose kind has become the status. -/
def EndsExecution (e : Exchange) : Prop :=
  (∃ n, e.result = .ok (e.call.report .halted) n ∧ n.status = .halted ∧
    n.output.flushDefect = none) ∨
    ∃ fault n, e.result = .error fault n ∧ n.status = .faulted fault.kind

/-- The call has a fault as its result. -/
def isError (e : Exchange) : Bool :=
  match e.result with
  | .ok .. => false
  | .error .. => true

/-- The machine that such a call leaves is running. -/
theorem LeavesRunning.status (h : LeavesRunning ⟨call, result⟩) :
    result.state.status = .running := by
  obtain ⟨n, hresult, hn⟩ := h
  simp only at hresult
  rw [hresult, EStateM.Result.state_ok, hn]

/-- The machine that such a call leaves is not. -/
theorem EndsExecution.status (h : EndsExecution ⟨call, result⟩) :
    result.state.status ≠ .running := by
  rcases h with ⟨n, hresult, hn, -⟩ | ⟨fault, n, hresult, hn⟩
  · simp only at hresult
    rw [hresult, EStateM.Result.state_ok, hn]
    nofun
  · simp only at hresult
    rw [hresult, EStateM.Result.state_error, hn]
    nofun

end Exchange

/-- A machine that is not running is left alone by every call. -/
theorem perform_of_not_running (h : m.status ≠ .running) (call : Call) :
    call.perform m = some (.ok (call.report m.status) m) := by
  cases call with
  | step => rw [Call.perform, step_of_not_running h]; rfl
  | runFor budget => rw [Call.perform, runFor_of_not_running h]; rfl
  | run => rw [Call.perform, run_eq_some_iff.2 (.ended h)]; rfl

/-- A call that returns has left a running machine running, or has ended execution. -/
theorem perform_outcome (hrun : m.status = .running) (h : call.perform m = some result) :
    Exchange.LeavesRunning ⟨call, result⟩ ∨ Exchange.EndsExecution ⟨call, result⟩ := by
  -- Each kind of call has its outcomes; here they are told in terms of what the call reports.
  cases call with
  | step =>
    cases h
    have houtcome := step_outcome hrun
    generalize m.step = r at houtcome
    cases houtcome with
    | running hn => exact .inl ⟨_, rfl, hn⟩
    | halted hn hflush => exact .inr (.inl ⟨_, rfl, hn, hflush⟩)
    | faulted hn => exact .inr (.inr ⟨_, _, rfl, hn⟩)
  | runFor budget =>
    cases h
    have houtcome := runFor_outcome hrun budget
    generalize m.runFor budget = r at houtcome
    cases houtcome with
    | running hn => exact .inl ⟨_, rfl, hn⟩
    | halted hn hflush => exact .inr (.inl ⟨_, rfl, hn, hflush⟩)
    | faulted hn => exact .inr (.inr ⟨_, _, rfl, hn⟩)
  | run =>
    obtain ⟨r, hr, rfl⟩ := Option.map_eq_some_iff.1 h
    rcases (run_eq_some_iff.1 hr).outcome hrun with ⟨n, rfl, hn, hflush⟩ | ⟨fault, n, rfl, hn⟩
    · exact .inr (.inl ⟨n, rfl, hn, hflush⟩)
    · exact .inr (.inr ⟨fault, n, rfl, hn⟩)

/-- The calls on a machine that is not running leave it alone. -/
theorem History.idle (h : History m es n) (hstop : m.status ≠ .running) :
    n = m ∧ ∀ e ∈ es, e.result = .ok (e.call.report m.status) m := by
  induction h with
  | nil => exact ⟨rfl, List.forall_mem_nil _⟩
  | @cons m n call result es hcall _ ih =>
    have hresult : result = .ok (call.report m.status) m :=
      Option.some.inj (hcall.symm.trans (perform_of_not_running hstop call))
    -- The call has left the machine as it was, so the next one finds it in the same way.
    rw [hresult, EStateM.Result.state_ok] at ih
    obtain ⟨hn, hidle⟩ := ih hstop
    refine ⟨hn, fun e he => ?_⟩
    rcases List.mem_cons.1 he with rfl | he
    · exact hresult
    · exact hidle e he

/-- The calls on a running machine leave it running up to the one that ends execution, if there is
    one, and the calls after that leave alone what it has left. -/
theorem History.phases (h : History m es n) (hrun : m.status = .running) :
    ∃ before rest, es = before ++ rest ∧ (∀ e ∈ before, e.LeavesRunning) ∧
      (rest = [] ∧ n.status = .running ∨
        ∃ e idle, rest = e :: idle ∧ e.EndsExecution ∧ n = e.result.state ∧
          ∀ e' ∈ idle, e'.result = .ok (e'.call.report n.status) n) := by
  induction h with
  | nil => exact ⟨[], [], rfl, List.forall_mem_nil _, .inl ⟨rfl, hrun⟩⟩
  | @cons m n call result es hcall htail ih =>
    -- By induction on the calls: as long as they leave the machine running, the next one is among
    -- those before the end.
    rcases perform_outcome hrun hcall with hrunning | hends
    · obtain ⟨before, rest, rfl, hbefore, hrest⟩ := ih hrunning.status
      refine ⟨⟨call, result⟩ :: before, rest, rfl, fun e he => ?_, hrest⟩
      rcases List.mem_cons.1 he with rfl | he
      · exact hrunning
      · exact hbefore e he
    · -- This is the call that ends execution: those before it are none, and those after it idle.
      obtain ⟨hn, hidle⟩ := htail.idle hends.status
      rw [← hn] at hidle
      exact ⟨[], _, rfl, List.forall_mem_nil _, .inr ⟨_, _, rfl, hends, hn, hidle⟩⟩

/-- At most one call of a history on a running machine has a fault as its result. -/
theorem History.length_errors (h : History m es n) (hrun : m.status = .running) :
    (es.filter Exchange.isError).length ≤ 1 := by
  obtain ⟨before, rest, rfl, hbefore, hrest⟩ := h.phases hrun
  -- A call that leaves its machine running is no error.
  have hquiet : before.filter Exchange.isError = [] := by
    refine List.filter_eq_nil_iff.2 fun e he => ?_
    obtain ⟨p, hresult, -⟩ := hbefore e he
    simp [Exchange.isError, hresult]
  rw [List.filter_append, hquiet, List.nil_append]
  rcases hrest with ⟨rfl, -⟩ | ⟨e, idle, rfl, -, -, hidle⟩
  · exact Nat.zero_le 1
  · -- After the one that ends execution there is no error either.
    have hidle : idle.filter Exchange.isError = [] := by
      refine List.filter_eq_nil_iff.2 fun e he => ?_
      simp [Exchange.isError, hidle e he]
    rw [List.filter_cons, hidle]
    split <;> simp

/-! ## The flush at the end -/

/-- The next step ends the program: there is no cell to execute, or it is a halt. -/
def AtEnd (m : Machine) : Prop :=
  m.cell? = none ∨ m.quoting = false ∧ m.cell?.map (·.instruction) = some .halt

/-- A flush that fails at the end of the program is a fault, not a halt. -/
theorem step_of_atEnd (hrun : m.status = .running) (hend : m.AtEnd) {reason : String}
    (hflush : m.output.flushDefect = some reason) :
    ∃ n, m.step = .error (.io reason) n ∧ n.status = .faulted .io := by
  -- The program ends where the grid has no cells, or at a halt that is obeyed.
  rcases hend with hc | ⟨hq, hhalt⟩
  · have hnext := executeNext_of_no_cell hc
    rw [hflush] at hnext
    exact ⟨_, step_of_error hrun hnext, rfl⟩
  · obtain ⟨cell, hc, hi⟩ := Option.map_eq_some_iff.1 hhalt
    have hnext := executeNext_of_obeying hc (.inl hq)
    rw [obey, hi] at hnext
    simp only [Action.bind_apply, halt_apply, output_counted, hflush] at hnext
    exact ⟨_, step_of_error hrun hnext, rfl⟩

/-- A call that takes a step faults if the first step does. -/
theorem perform_of_step_error (hrun : m.status = .running) (hstep : m.step = .error fault n)
    (hcall : call ≠ .runFor 0) : call.perform m = some (.error fault n) := by
  cases call with
  | step => rw [Call.perform, hstep]; rfl
  | runFor budget =>
    cases budget with
    | zero => contradiction
    | succ budget => simp only [Call.perform, runFor, hrun, hstep]; rfl
  | run => rw [Call.perform, run_eq_some_iff.2 (.faulted hrun hstep)]; rfl

/-- A machine whose output cannot be flushed never halts. -/
theorem History.not_halted (h : History m es n) (hrun : m.status = .running)
    (hflush : m.output.flushDefect ≠ none) : n.status ≠ .halted := by
  -- No step repairs the output, and a halt needs it to be flushed.
  have hkept : n.output.flushDefect = m.output.flushDefect :=
    h.invariant (fun p hp => (flushDefect_next p).trans hp) rfl
  obtain ⟨before, rest, -, -, hrest⟩ := h.phases hrun
  rcases hrest with ⟨-, hn⟩ | ⟨e, idle, -, hends, hn, -⟩
  · rw [hn]
    nofun
  · rcases hends with ⟨p, hresult, -, hnone⟩ | ⟨fault, p, hresult, hp⟩
    · rw [hresult, EStateM.Result.state_ok] at hn
      rw [hn, hnone] at hkept
      exact absurd hkept.symm hflush
    · rw [hresult, EStateM.Result.state_error] at hn
      rw [hn, hp]
      nofun

/-! ## The whole life -/

/-- Whatever calls are made on a running machine, they leave it running up to one, if there is one,
    that ends execution: it halts the machine and succeeds, or gives the fault whose kind becomes
    the status. So at most one call faults. Every call after it succeeds and leaves the machine as
    it is. If the output cannot be flushed, the machine never halts: a call that takes a step where
    the program ends gives the fault of the flush. -/
theorem History.lifecycle (h : History m es n) (hrun : m.status = .running) :
    (∃ before rest, es = before ++ rest ∧ (∀ e ∈ before, e.LeavesRunning) ∧
      (rest = [] ∧ n.status = .running ∨
        ∃ e idle, rest = e :: idle ∧ e.EndsExecution ∧ n = e.result.state ∧
          ∀ e' ∈ idle, e'.result = .ok (e'.call.report n.status) n)) ∧
      (es.filter Exchange.isError).length ≤ 1 ∧
      (n.status ≠ .running →
        ∀ call : Call, call.perform n = some (.ok (call.report n.status) n)) ∧
      ∀ reason, m.output.flushDefect = some reason →
        n.status ≠ .halted ∧
          (n.status = .running → n.AtEnd → ∀ call : Call, call ≠ .runFor 0 →
            ∃ p, call.perform n = some (.error (.io reason) p) ∧ p.status = .faulted .io) := by
  refine ⟨h.phases hrun, h.length_errors hrun, perform_of_not_running, fun reason hflush =>
    ⟨h.not_halted hrun (by rw [hflush]; nofun), fun hn hend call hcall => ?_⟩⟩
  have hkept : n.output.flushDefect = m.output.flushDefect :=
    h.invariant (fun p hp => (flushDefect_next p).trans hp) rfl
  obtain ⟨p, hstep, hp⟩ := step_of_atEnd hn hend (hkept.trans hflush)
  exact ⟨p, perform_of_step_error hn hstep hcall, hp⟩

/-- An empty program with an output that cannot be flushed does not halt. -/
theorem lifecycle_of_broken_output :
    let m := start (.ofRows []) [] 0 {} { flushDefect := some "broken" }
    History m [⟨.step, Call.resultOf some m.step⟩] m.next ∧ m.status = .running ∧
      m.next.status ≠ .halted := by
  intro m
  have h : History m [⟨.step, Call.resultOf some m.step⟩] m.next := .cons rfl .nil
  have hrun : m.status = .running := rfl
  obtain ⟨-, -, -, hflush⟩ := h.lifecycle hrun
  exact ⟨h, hrun, (hflush "broken" rfl).1⟩

end Machine

end Fish
