import Fish.Proofs.Frame
import Mathlib.Logic.Function.Iterate

/-!
# Steps one after the other

A step of a running machine executes a cell and moves the pointer on, or faults, or halts for want
of a cell; `step_cases` lists these outcomes with the machine that each leaves. `Machine.next` is
the machine after a step, whatever the step answers, and `Machine.after` the machine after a number
of steps. A machine that is not running stays as it is, so limited and unlimited runs, which stop
early, leave machines of this one sequence.

Main lemmas:

* `step_cases`          how a step of a running machine can go
* `next_of_cell`        what a cell establishes holds after the step that executes it
* `next_keeps`          a step changes only what its cell writes, and the place of the pointer
* `events_succ`         what a number of steps do, one after the other
* `state_runFor`        a limited run leaves the machine after as many steps as it may take
* `Ends.exists_after`   so does an unlimited run that ends
-/

namespace Fish.Machine

variable {m n : Machine} {cell : Cell} {p : Part}

/-- The machine with one more cell counted as executed. -/
def counted (m : Machine) : Machine := { m with steps := m.steps + 1 }

/-- The count is apart from the stacks. -/
@[simp] theorem stack_counted (m : Machine) : m.counted.stack = m.stack := rfl

/-- It is apart from the output too. -/
@[simp] theorem output_counted (m : Machine) : m.counted.output = m.output := rfl

/-- The cell is counted and executed. -/
theorem executeNext_of_cell (h : m.cell? = some cell) :
    executeNext m = execute cell m.counted := by
  simp only [executeNext, Action.get_bind_apply, h]
  rfl

/-- Outside quotes the cell is obeyed, and so is a quote. -/
theorem executeNext_of_obeying (h : m.cell? = some cell)
    (hobey : m.quoting = false ∨ cell.instruction = .quote) :
    executeNext m = obey cell m.counted :=
  (executeNext_of_cell h).trans (execute_of_obeying (m := m.counted) hobey)

/-- Without a cell the program is at its end, which counts for no cell. -/
theorem executeNext_of_no_cell (h : m.cell? = none) :
    executeNext m =
      match m.output.flushDefect with
      | none => .ok .stay { m with status := .halted }
      | some reason => .error (.io reason) { m with status := .halted } := by
  simp only [executeNext, Action.get_bind_apply, h]
  rw [Action.bind_apply, halt_apply]
  cases m.output.flushDefect <;> rfl

/-- A grid with cells shows one wherever the pointer is. -/
theorem exists_cell (h : m.grid.isEmpty = false) : ∃ cell, m.cell? = some cell :=
  Option.isSome_iff_exists.1 ((Grid.lookup_isSome_iff _).2 h)

/-- A grid that shows a cell has cells. -/
theorem isEmpty_of_cell (h : m.cell? = some cell) : m.grid.isEmpty = false :=
  (Grid.lookup_isSome_iff m.pointer.position).1 (Option.isSome_iff_exists.2 ⟨cell, h⟩)

/-! ## How a step goes -/

/-- A machine that is not running only tells its status. -/
theorem step_of_not_running (h : m.status ≠ .running) : m.step = .ok m.status m := by
  rw [step]
  split
  · contradiction
  · rfl

/-- A cell that succeeds is followed by the move. -/
theorem step_of_ok (hrun : m.status = .running) {motion : Motion}
    (h : executeNext m = .ok motion n) : m.step = .ok (n.move motion).status (n.move motion) := by
  rw [step, hrun]
  simp only [h]

/-- A cell that faults is not, and the fault becomes the status. -/
theorem step_of_error (hrun : m.status = .running) {fault : Fault}
    (h : executeNext m = .error fault n) :
    m.step = .error fault { n with status := .faulted fault.kind } := by
  rw [step, hrun]
  simp only [h]

/-- A step that succeeds has executed a cell and moved on. -/
theorem executeNext_of_step_ok (hrun : m.status = .running) {status : Status}
    (h : m.step = .ok status n) : ∃ motion t, executeNext m = .ok motion t ∧ n = t.move motion := by
  cases he : executeNext m with
  | ok motion t =>
    rw [step_of_ok hrun he] at h
    cases h
    exact ⟨motion, t, rfl, rfl⟩
  | error fault t =>
    rw [step_of_error hrun he] at h
    cases h

/-- A step of a running machine executes a cell and moves on, or the cell faults, or there is no
    cell, and then it depends on the flush whether the machine halts or faults. -/
theorem step_cases (hrun : m.status = .running) :
    (∃ cell motion n, m.cell? = some cell ∧ execute cell m.counted = .ok motion n ∧
      m.step = .ok (n.move motion).status (n.move motion)) ∨
    (∃ cell fault n, m.cell? = some cell ∧ execute cell m.counted = .error fault n ∧
      m.step = .error fault { n with status := .faulted fault.kind }) ∨
    (m.cell? = none ∧ m.output.flushDefect = none ∧
      m.step = .ok .halted { m with status := .halted }) ∨
    (∃ reason, m.cell? = none ∧ m.output.flushDefect = some reason ∧
      m.step = .error (.io reason) { m with status := .faulted .io }) := by
  -- The four outcomes: with a cell it decides, and without one the flush does.
  cases hc : m.cell? with
  | some cell =>
    cases he : execute cell m.counted with
    | ok motion n =>
      exact .inl ⟨cell, motion, n, rfl, he,
        step_of_ok hrun ((executeNext_of_cell hc).trans he)⟩
    | error fault n =>
      exact .inr (.inl ⟨cell, fault, n, rfl, he,
        step_of_error hrun ((executeNext_of_cell hc).trans he)⟩)
  | none =>
    have hnext := executeNext_of_no_cell hc
    cases hf : m.output.flushDefect with
    | none =>
      rw [hf] at hnext
      exact .inr (.inr (.inl ⟨rfl, rfl, step_of_ok hrun hnext⟩))
    | some reason =>
      rw [hf] at hnext
      have hstep := step_of_error hrun hnext
      exact .inr (.inr (.inr ⟨reason, rfl, rfl, hstep⟩))

/-- Only a step of a running machine can fault. -/
theorem running_of_step_error {fault : Fault} (h : m.step = .error fault n) :
    m.status = .running := by
  by_contra hstop
  rw [step_of_not_running hstop] at h
  cases h

/-- A fault becomes the status. -/
theorem status_of_step_error {fault : Fault} (h : m.step = .error fault n) :
    n.status = .faulted fault.kind := by
  by_cases hrun : m.status = .running
  · rw [step, hrun] at h
    -- The status is set where the fault is raised, and nowhere after it.
    cases he : executeNext m with
    | ok motion t =>
      simp only [he] at h
      cases h
    | error fault t =>
      simp only [he] at h
      cases h
      rfl
  · rw [step_of_not_running hrun] at h
    cases h

/-! ## The machine after a step -/

/-- The machine after a step, whatever the step answers. -/
def next (m : Machine) : Machine := m.step.state

/-- It is the one that a step with a status leaves. -/
theorem next_of_step_ok {status : Status} (h : m.step = .ok status n) : m.next = n :=
  congrArg EStateM.Result.state h

/-- It is the one that a step with a fault leaves. -/
theorem next_of_step_error {fault : Fault} (h : m.step = .error fault n) : m.next = n :=
  congrArg EStateM.Result.state h

/-- The machine after a number of steps, whatever they answer. -/
def after (m : Machine) (k : Nat) : Machine := next^[k] m

/-- After no steps the machine is as it was. -/
theorem after_zero (m : Machine) : m.after 0 = m := rfl

/-- The last step is one from the machine before it. -/
theorem after_succ (m : Machine) (k : Nat) : m.after (k + 1) = (m.after k).next :=
  Function.iterate_succ_apply' ..

/-- The first step may be taken apart from the others. -/
theorem after_next (m : Machine) (k : Nat) : m.next.after k = m.after (k + 1) := rfl

/-- Steps may be counted in two parts. -/
theorem after_after (m : Machine) (j k : Nat) : (m.after j).after k = m.after (k + j) :=
  (Function.iterate_add_apply ..).symm

/-- A machine that is not running is left alone. -/
theorem next_of_not_running (h : m.status ≠ .running) : m.next = m := by
  rw [next, step_of_not_running h]
  rfl

/-- So it is by any number of steps. -/
theorem after_of_not_running (h : m.status ≠ .running) (k : Nat) : m.after k = m :=
  Function.iterate_fixed (next_of_not_running h) k

/-- A step after which the machine is running has succeeded. -/
theorem step_of_next_running (h : m.next.status = .running) : m.step = .ok .running m.next := by
  rw [next] at h ⊢
  by_cases hrun : m.status = .running
  · -- A fault would have become the status.
    cases he : executeNext m with
    | ok motion n =>
      rw [step_of_ok hrun he] at h ⊢
      exact congrArg (EStateM.Result.ok · _) h
    | error fault n =>
      rw [step_of_error hrun he] at h
      cases h
  · rw [step_of_not_running hrun] at h
    contradiction

/-- Without a cell a step only ends execution. -/
theorem next_of_no_cell (hrun : m.status = .running) (hc : m.cell? = none) :
    ∃ status, status ≠ .running ∧ m.next = { m with status } := by
  rcases step_cases hrun with ⟨cell, motion, n, hcell, -, -⟩ | ⟨cell, fault, n, hcell, -, -⟩ |
    ⟨-, -, hstep⟩ | ⟨reason, -, -, hstep⟩
  · -- The first two outcomes have a cell.
    rw [hc] at hcell
    cases hcell
  · rw [hc] at hcell
    cases hcell
  · exact ⟨.halted, by decide, next_of_step_ok hstep⟩
  · exact ⟨.faulted .io, by decide, next_of_step_error hstep⟩

/-- What a cell establishes holds after the step that executes it, if the move and the new status do
    not matter to it. -/
theorem next_of_cell {P : Machine → Prop} (hrun : m.status = .running) (hc : m.cell? = some cell)
    (hcell : P (execute cell m.counted).state) (hmove : ∀ n motion, P n → P (n.move motion))
    (hstatus : ∀ n status, P n → P { n with status }) : P m.next := by
  -- After the cell come the move or the new status, and nothing else.
  rcases step_cases hrun with ⟨cell', motion, n, hc', he, hstep⟩ |
    ⟨cell', fault, n, hc', he, hstep⟩ | ⟨hnone, -, -⟩ | ⟨reason, hnone, -, -⟩
  · obtain rfl := Option.some.inj (hc.symm.trans hc')
    rw [he] at hcell
    rw [next_of_step_ok hstep]
    exact hmove n motion hcell
  · obtain rfl := Option.some.inj (hc.symm.trans hc')
    rw [he] at hcell
    rw [next_of_step_error hstep]
    exact hstatus n _ hcell
  · rw [hc] at hnone
    cases hnone
  · rw [hc] at hnone
    cases hnone

/-- What holds of a machine holds after a step if the cell establishes it again, and the move and
    the new status do not matter to it. -/
theorem next_of_execute {P : Machine → Prop} (hm : P m)
    (hcell : ∀ cell, m.cell? = some cell → P (execute cell m.counted).state)
    (hmove : ∀ n motion, P n → P (n.move motion))
    (hstatus : ∀ n status, P n → P { n with status }) : P m.next := by
  by_cases hrun : m.status = .running
  · cases hc : m.cell? with
    | none =>
      -- Without a cell only the status changes, which does not matter.
      obtain ⟨status, -, hnext⟩ := next_of_no_cell hrun hc
      rw [hnext]
      exact hstatus m status hm
    | some cell => exact next_of_cell hrun hc (hcell cell hc) hmove hstatus
  · rw [next_of_not_running hrun]
    exact hm

/-- What holds of a machine and is kept by every step holds after any number of steps. -/
theorem after_induction {P : Machine → Prop} (hnext : ∀ n, P n → P n.next) (h : P m) (k : Nat) :
    P (m.after k) := by
  induction k with
  | zero => exact h
  | succ k ih => exact after_succ m k ▸ hnext _ ih

/-! ## What the steps of a run do -/

/-- What a number of steps do, one after the other, of the things that the given function tells
    about the step that a machine takes next. -/
def events {α : Type} (event? : Machine → Option α) (m : Machine) (k : Nat) : List α :=
  (List.range k).filterMap fun j => event? (m.after j)

/-- One more step adds what it does at the end. -/
theorem events_succ {α : Type} (event? : Machine → Option α) (m : Machine) (k : Nat) :
    m.events event? (k + 1) = m.events event? k ++ (event? (m.after k)).toList := by
  rw [events, List.range_succ, List.filterMap_append]
  cases h : event? (m.after k) <;> simp [events, h]

/-! ## What a step leaves alone -/

/-- A pace changes nothing but the place of the pointer. -/
theorem pace_keeps (hp : p ≠ .position) (m : Machine) : p.view m.pace = p.view m := by
  cases p with
  | position => contradiction
  | heading => exact Pointer.heading_advance ..
  | _ => rfl

/-- A move changes the place of the pointer and ends a leap. -/
theorem move_keeps (hp : p ≠ .position) (hl : p ≠ .leaping) (m : Machine) (motion : Motion) :
    p.view (m.move motion) = p.view m := by
  cases motion with
  | stay => rfl
  | advance =>
    -- Between the two paces of a leap only its mark is taken away.
    have hland : p.view { m.pace with leaping := false } = p.view m.pace := by
      cases p <;> first | rfl | contradiction
    rw [move]
    split
    · rw [pace_keeps hp, hland, pace_keeps hp]
    · exact pace_keeps hp m

/-- A move does not change the status. -/
@[simp] theorem status_move (m : Machine) (motion : Motion) : (m.move motion).status = m.status :=
  move_keeps (p := .status) nofun nofun m motion

/-- A machine that is not leaping takes one pace to move on. -/
theorem step_of_advance (hrun : m.status = .running) (h : executeNext m = .ok .advance n)
    (hn : n.status = .running) (hl : n.leaping = false) : m.step = .ok .running n.pace := by
  have hmove : n.move .advance = n.pace := if_neg (by simp [hl])
  have hstep := step_of_ok hrun h
  rwa [status_move, hn, hmove] at hstep

/-- A step changes only what its cell writes, the place of the pointer, and what tells how
    execution goes on. -/
theorem next_keeps (hcell : ∀ cell, m.cell? = some cell → p ∉ m.writes cell)
    (hp : p ≠ .position) (hl : p ≠ .leaping) (hs : p ≠ .status) (hc : p ≠ .steps) :
    p.view m.next = p.view m := by
  have hcounted : p.view m.counted = p.view m := by
    cases p <;> first | rfl | contradiction
  have hstatus (n : Machine) (status : Status) : p.view { n with status } = p.view n := by
    cases p <;> first | rfl | contradiction
  -- A step is the count, the cell and the move; each of them keeps the part.
  refine next_of_execute (P := fun n => p.view n = p.view m) rfl (fun cell hc => ?_)
    (fun n motion hn => (move_keeps hp hl n motion).trans hn)
    fun n status hn => (hstatus n status).trans hn
  exact (execute_keeps (m := m.counted) (hcell cell hc)).trans hcounted

/-- The grid never changes. -/
@[simp] theorem grid_next (m : Machine) : m.next.grid = m.grid := by
  refine next_keeps (p := .grid) (fun cell _ h => ?_) nofun nofun nofun nofun
  exact cell.instruction.grid_notin_writes (obeying_of_mem_writes h nofun).2

/-- Not after any number of steps. -/
@[simp] theorem grid_after (m : Machine) (k : Nat) : (m.after k).grid = m.grid :=
  after_induction (P := fun n => n.grid = m.grid) (fun n h => (grid_next n).trans h) rfl k

/-! ## Limited and unlimited runs -/

/-- A limited run leaves the machine after as many steps as it may take. -/
theorem state_runFor (k : Nat) (m : Machine) : (runFor k m).state = m.after k := by
  -- By induction on the budget, along the run.
  induction k generalizing m with
  | zero => rfl
  | succ k ih =>
    simp only [runFor]
    split
    · rw [← after_next, next]
      cases hstep : m.step with
      | ok status n => exact ih n
      | error fault n =>
        -- The run stops here, and the steps that it does not take would change nothing.
        have hstop : n.status ≠ .running := by
          rw [status_of_step_error hstep]
          nofun
        exact (after_of_not_running hstop k).symm
    · rename_i hstop
      exact (after_of_not_running hstop _).symm

/-- An unlimited run that ends leaves the machine after some number of steps. -/
theorem Ends.exists_after {r : EStateM.Result Fault Machine Unit} (h : Ends m r) :
    ∃ k, r.state = m.after k := by
  induction h with
  | ended => exact ⟨0, rfl⟩
  | @faulted m n fault hrun hstep =>
    refine ⟨1, ?_⟩
    rw [after_succ, after_zero, next, hstep]
    rfl
  | @stepped m n status r hrun hstep _ ih =>
    obtain ⟨k, hk⟩ := ih
    refine ⟨k + 1, ?_⟩
    rw [hk, ← after_next, next, hstep]
    rfl

end Fish.Machine
