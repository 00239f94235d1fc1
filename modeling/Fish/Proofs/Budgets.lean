import Fish.Proofs.Lifecycle

/-!
# Budgets

A run with a budget takes single steps, one after the other, until the budget is spent, a step
faults, or the machine is not running any more. So budgets add up: spending one and then another on
what the first has left is spending their sum, a fault in the first one aside, which ends both. A
run without a budget is the run with any budget that is large enough.

The machine counts the cells that it executes. On a grid with cells that is one for every step
taken; on a grid without cells there is nothing to count, and the first step is the last.

Main lemmas:

* `runFor_add`        the sum of two budgets is the one budget after the other
* `runFor_succ`       one more step of budget is one more step, if there is one to take
* `exists_spends`     how many steps of a budget are taken, and what comes of them
* `steps_after`       on a grid with cells every step taken counts
* `ends_of_runFor`    a budget that suffices gives the end of the run without a budget
* `budgets_compose`   all of it about one machine
-/

namespace Fish

/-- No instruction changes the count of executed cells. -/
theorem Instruction.steps_notin_writes (i : Instruction) : Part.steps ∉ i.writes := by
  cases i with
  | mirror mirror => cases mirror <;> simp [writes]
  | stack command => cases command <;> simp [writes]
  | _ => simp [writes]

namespace Machine

variable {m n : Machine} {cell : Cell} {k budget taken : Nat} {status : Status} {fault : Fault}
  {r : EStateM.Result Fault Machine Unit}

/-! ## The sum of two budgets -/

/-- Without a budget no step is taken. -/
theorem runFor_zero (m : Machine) : m.runFor 0 = .ok m.status m := rfl

/-- After a first step the rest of the budget is spent on what it has left. -/
theorem runFor_of_step_ok (hrun : m.status = .running) (hstep : m.step = .ok status n) (k : Nat) :
    m.runFor (k + 1) = n.runFor k := by
  simp only [runFor, hrun, hstep]

/-- A first step that faults ends the run. -/
theorem runFor_of_step_error (hrun : m.status = .running) (hstep : m.step = .error fault n)
    (k : Nat) : m.runFor (k + 1) = .error fault n := by
  simp only [runFor, hrun, hstep]

/-- Spending the sum of two budgets is spending the second one on what the first has left. -/
theorem runFor_add (a b : Nat) (m : Machine) :
    m.runFor (a + b) = (runFor a >>= fun _ => runFor b) m := by
  -- By induction on the first budget, one step at a time.
  induction a generalizing m with
  | zero =>
    rw [Nat.zero_add, Action.bind_of_ok (runFor_zero m)]
  | succ a ih =>
    rw [Nat.succ_add]
    by_cases hrun : m.status = .running
    · cases hstep : m.step with
      | ok status n =>
        -- Both sides take the same first step, and what is left of the budgets adds up.
        rw [runFor_of_step_ok hrun hstep, ih, Action.bind_apply, Action.bind_apply,
          runFor_of_step_ok hrun hstep]
      | error fault n =>
        have hfirst := runFor_of_step_error hrun hstep a
        rw [runFor_of_step_error hrun hstep, Action.bind_of_error hfirst]
    · -- No step is taken, by either budget or by both.
      have hfirst := runFor_of_not_running hrun (a + 1)
      rw [runFor_of_not_running hrun, Action.bind_of_ok hfirst, runFor_of_not_running hrun]

/-- A limited run that succeeds reports the status of the machine that it leaves. -/
theorem status_of_runFor_ok (h : m.runFor k = .ok status n) : status = n.status := by
  by_cases hrun : m.status = .running
  · have houtcome := runFor_outcome hrun k
    rw [h] at houtcome
    cases houtcome with
    | running hn => exact hn.symm
    | halted hn => exact hn.symm
  · rw [runFor_of_not_running hrun] at h
    cases h
    rfl

/-- A limited run that faults leaves a machine that is not running. -/
theorem stopped_of_runFor_error (h : m.runFor k = .error fault n) : n.status ≠ .running := by
  have hrun : m.status = .running := by
    by_contra hstop
    rw [runFor_of_not_running hstop] at h
    cases h
  have houtcome := runFor_outcome hrun k
  rw [h] at houtcome
  cases houtcome with
  | faulted hn =>
    rw [hn]
    nofun

/-- A limited run after which the machine is running has succeeded. -/
theorem runFor_of_running (h : (m.after k).status = .running) :
    m.runFor k = .ok .running (m.after k) := by
  have hstate := state_runFor k m
  -- A fault would have ended execution.
  cases hrun : m.runFor k with
  | ok status n =>
    rw [hrun, EStateM.Result.state_ok] at hstate
    rw [status_of_runFor_ok hrun, hstate, h]
  | error fault n =>
    rw [hrun, EStateM.Result.state_error] at hstate
    exact absurd (hstate ▸ h) (stopped_of_runFor_error hrun)

/-- A budget of one is one step. -/
theorem runFor_one (m : Machine) : m.runFor 1 = m.step := by
  by_cases hrun : m.status = .running
  · have houtcome := step_outcome hrun
    cases hstep : m.step with
    | ok status n =>
      rw [runFor_of_step_ok hrun hstep]
      rw [hstep] at houtcome
      cases houtcome with
      | running hn => rw [runFor_zero, hn]
      | halted hn => rw [runFor_zero, hn]
    | error fault n => rw [runFor_of_step_error hrun hstep]
  · rw [runFor_of_not_running hrun, step_of_not_running hrun]

/-- A budget larger by one gives one more step if the machine is still running, and nothing else if
    it is not. -/
theorem runFor_succ (k : Nat) (m : Machine) :
    m.runFor (k + 1) =
      if (m.after k).status = .running then (m.after k).step else m.runFor k := by
  have hstate := state_runFor k m
  -- The budget is spent as `k` and one; a budget of one is a step.
  rw [runFor_add, Action.bind_apply]
  cases h : m.runFor k with
  | ok status n =>
    rw [h, EStateM.Result.state_ok] at hstate
    subst hstate
    show runFor 1 _ = _
    rw [runFor_one]
    split
    · rfl
    · rename_i hstop
      rw [step_of_not_running hstop, status_of_runFor_ok h]
  | error fault n =>
    rw [h, EStateM.Result.state_error] at hstate
    rw [← hstate, if_neg (stopped_of_runFor_error h)]

/-! ## The steps that are taken -/

/-- Of a budget so many steps are taken: all of them from running machines, and if they are fewer
    than the budget allows then the machine after them is not running. -/
structure Spends (m : Machine) (budget taken : Nat) : Prop where
  le : taken ≤ budget
  running : ∀ j < taken, (m.after j).status = .running
  stopped : taken < budget → (m.after taken).status ≠ .running

/-- The result of taking a number of steps: that of the last one, or else the present status. -/
def afterSteps (m : Machine) : Nat → EStateM.Result Fault Machine Status
  | 0 => .ok m.status m
  | last + 1 => (m.after last).step

/-- Once the machine is not running a larger budget gives the same. -/
theorem runFor_of_stopped (hstop : (m.after k).status ≠ .running) (hle : k ≤ budget) :
    m.runFor budget = m.runFor k := by
  obtain ⟨extra, rfl⟩ := Nat.exists_eq_add_of_le hle
  clear hle
  -- By induction on what the larger budget has more.
  induction extra with
  | zero => rfl
  | succ extra ih =>
    -- The machine has stayed as it was after `k` steps.
    have hsame : m.after (k + extra) = m.after k := by
      rw [Nat.add_comm, ← after_after, after_of_not_running hstop]
    rw [← Nat.add_assoc, runFor_succ, hsame, if_neg hstop, ih]

/-- The result of a limited run is that of the last step that is taken. -/
theorem Spends.runFor_eq (h : m.Spends budget taken) : m.runFor budget = m.afterSteps taken := by
  have hall : m.runFor taken = m.afterSteps taken := by
    cases taken with
    | zero => rfl
    | succ last => rw [runFor_succ, if_pos (h.running last (Nat.lt_succ_self last)), afterSteps]
  -- Budget that is left over changes nothing.
  rcases Nat.lt_or_eq_of_le h.le with hlt | heq
  · rw [runFor_of_stopped (h.stopped hlt) h.le, hall]
  · rw [← heq, hall]

/-- Every budget is spent in this way. -/
theorem exists_spends (m : Machine) (budget : Nat) : ∃ taken, m.Spends budget taken := by
  induction budget with
  | zero => exact ⟨0, Nat.le_refl 0, nofun, nofun⟩
  | succ budget ih =>
    obtain ⟨taken, h⟩ := ih
    by_cases hrun : (m.after taken).status = .running
    · -- The smaller budget was spent to the last, so there is one more step to take.
      have hspent : taken = budget := by
        have hle := h.le
        by_contra hne
        exact h.stopped (by omega) hrun
      subst hspent
      refine ⟨taken + 1, Nat.le_refl _, fun j hj => ?_, fun hlt => absurd hlt (Nat.lt_irrefl _)⟩
      rcases Nat.lt_or_eq_of_le (Nat.le_of_lt_succ hj) with hlt | rfl
      · exact h.running j hlt
      · exact hrun
    · exact ⟨taken, Nat.le_succ_of_le h.le, h.running, fun _ => hrun⟩

/-- The machine that a limited run leaves is the one after the steps that are taken. -/
theorem Spends.after_eq (h : m.Spends budget taken) : m.after budget = m.after taken := by
  obtain ⟨extra, rfl⟩ := Nat.exists_eq_add_of_le h.le
  cases extra with
  | zero => rfl
  | succ extra =>
    -- The steps beyond those that are taken change nothing.
    have hstop := h.stopped (by omega)
    rw [Nat.add_comm, ← after_after, after_of_not_running hstop]

/-! ## The count of executed cells -/

/-- A step that executes a cell counts it. -/
theorem steps_next (hrun : m.status = .running) (hc : m.cell? = some cell) :
    m.next.steps = m.steps + 1 := by
  have hkeep : (execute cell m.counted).state.steps = m.steps + 1 :=
    execute_keeps (p := .steps) fun h =>
      cell.instruction.steps_notin_writes (obeying_of_mem_writes h nofun).2
  refine next_of_cell (P := fun n => n.steps = m.steps + 1) hrun hc hkeep ?_ ?_
  · intro n motion hn
    have hmove : (n.move motion).steps = n.steps := move_keeps (p := .steps) nofun nofun n motion
    exact hmove.trans hn
  · intro n status hn
    exact hn

/-- On a grid with cells every step of a running machine counts. -/
theorem steps_after (hcells : m.grid.isEmpty = false)
    (hrun : ∀ j < k, (m.after j).status = .running) : (m.after k).steps = m.steps + k := by
  induction k with
  | zero => rfl
  | succ k ih =>
    -- The grid has its cells at every step, so each finds one to count.
    have hcells' : (m.after k).grid.isEmpty = false := by rw [grid_after, hcells]
    obtain ⟨cell, hc⟩ := exists_cell hcells'
    have hk := ih fun j hj => hrun j (Nat.lt_succ_of_lt hj)
    rw [after_succ, steps_next (hrun k (Nat.lt_succ_self k)) hc, hk, Nat.add_assoc]

/-- A grid without cells shows none. -/
theorem no_cell (h : m.grid.isEmpty = true) : m.cell? = none := by
  cases hc : m.cell? with
  | none => rfl
  | some cell => rw [isEmpty_of_cell hc] at h; cases h

/-- The steps that are taken are counted, but for the one that finds no cell. -/
theorem Spends.count (h : m.Spends budget taken) :
    (m.after budget).steps = m.steps + taken ∨
      taken = 1 ∧ (m.after budget).steps = m.steps ∧ (m.after budget).status ≠ .running := by
  rw [h.after_eq]
  -- On a grid with cells all steps count; without any, the first step halts uncounted.
  cases hcells : m.grid.isEmpty with
  | false => exact .inl (steps_after hcells h.running)
  | true =>
    have hc := no_cell hcells
    match taken, h with
    | 0, _ => exact .inl rfl
    | 1, h =>
      obtain ⟨status, hstop, hnext⟩ := next_of_no_cell (h.running 0 Nat.zero_lt_one) hc
      have hone : m.after 1 = { m with status } := hnext
      rw [hone]
      exact .inr ⟨rfl, rfl, hstop⟩
    | taken + 2, h =>
      -- There is no second step on such a grid.
      obtain ⟨status, hstop, hnext⟩ := next_of_no_cell (h.running 0 (by omega)) hc
      have hone : m.after 1 = { m with status } := hnext
      have hstill := h.running 1 (by omega)
      rw [hone] at hstill
      contradiction

/-- A limited run counts at most its budget, and exactly its budget if the machine is running after
    it. -/
theorem steps_after_le (m : Machine) (budget : Nat) :
    m.steps ≤ (m.after budget).steps ∧ (m.after budget).steps ≤ m.steps + budget ∧
      ((m.after budget).status = .running → (m.after budget).steps = m.steps + budget) := by
  obtain ⟨taken, h⟩ := exists_spends m budget
  have hle := h.le
  rcases h.count with hcount | ⟨rfl, hcount, hstop⟩
  · refine ⟨by omega, by omega, fun hrun => ?_⟩
    -- Fewer steps than the budget allows would have left a machine that is not running.
    rw [h.after_eq] at hrun
    have hall : taken = budget := by
      by_contra hne
      exact h.stopped (by omega) hrun
    rw [hcount, hall]
  · exact ⟨by omega, by omega, fun hrun => absurd hrun hstop⟩

/-! ## Runs without a budget -/

/-- A budget after which the machine is not running gives the end that it comes to. -/
theorem ends_of_runFor (hstop : (m.after k).status ≠ .running) :
    Ends m (discard (runFor k) m) := by
  -- By induction on the budget, along the steps that the run takes.
  induction k generalizing m with
  | zero =>
    rw [Action.discard_of_ok (runFor_zero m)]
    exact .ended hstop
  | succ k ih =>
    by_cases hrun : m.status = .running
    · cases hstep : m.step with
      | ok status n =>
        have hrest : Ends n (discard (runFor k) n) := ih (next_of_step_ok hstep ▸ hstop)
        -- With its result dropped, the run is the run of what the first step has left.
        have hsame : discard (runFor (k + 1)) m = discard (runFor k) n := by
          have hruns := runFor_of_step_ok hrun hstep k
          cases h : n.runFor k with
          | ok last p => rw [Action.discard_of_ok h, Action.discard_of_ok (hruns.trans h)]
          | error fault p => rw [Action.discard_of_error h, Action.discard_of_error (hruns.trans h)]
        rw [hsame]
        exact .stepped hrun hstep hrest
      | error fault n =>
        rw [Action.discard_of_error (runFor_of_step_error hrun hstep k)]
        exact .faulted hrun hstep
    · rw [Action.discard_of_ok (runFor_of_not_running hrun (k + 1))]
      exact .ended hrun

/-- At its end a machine is not running. -/
theorem Ends.stopped (h : Ends m r) : r.state.status ≠ .running := by
  -- By induction on the way to the end.
  induction h with
  | ended hstop => exact hstop
  | faulted _ hstep =>
    rw [EStateM.Result.state_error, status_of_step_error hstep]
    nofun
  | stepped _ _ _ ih => exact ih

/-- A machine comes to one end at most. -/
theorem Ends.unique {r' : EStateM.Result Fault Machine Unit} (h : Ends m r) (h' : Ends m r') :
    r = r' :=
  Option.some.inj ((run_eq_some_iff.2 h).symm.trans (run_eq_some_iff.2 h'))

/-- The end that a machine comes to is reached by a budget that is no larger than the number of
    cells executed until then, or by a budget of one. -/
theorem Ends.exists_runFor (h : Ends m r) :
    ∃ budget ≤ max 1 (r.state.steps - m.steps),
      (m.after budget).status ≠ .running ∧ discard (runFor budget) m = r := by
  obtain ⟨k, hk⟩ := h.exists_after
  have hstop : (m.after k).status ≠ .running := hk ▸ h.stopped
  -- Of `k` steps only those that were taken are needed.
  obtain ⟨taken, hspends⟩ := exists_spends m k
  refine ⟨taken, ?_, hspends.after_eq ▸ hstop, ?_⟩
  · rw [hk]
    rcases hspends.count with hcount | ⟨hone, -, -⟩ <;> omega
  · exact (ends_of_runFor (hspends.after_eq ▸ hstop)).unique h

/-! ## Limited and unlimited runs of one machine -/

/-- The sum of two budgets gives the fault of the first one, if it has one, and otherwise what the
    second one gives on the machine that the first has left. A budget is spent by single steps, each
    but the last of which succeeds and leaves the machine running; the count of executed cells grows
    by the budget at most, and by exactly that if the machine is running afterwards. If it is not,
    a larger budget and a run without a budget give the same; and if a run without a budget ends,
    some budget gives its end. -/
theorem budgets_compose (m : Machine) :
    (∀ a b,
      (∀ fault n, m.runFor a = .error fault n → m.runFor (a + b) = .error fault n) ∧
        ∀ status n, m.runFor a = .ok status n → m.runFor (a + b) = n.runFor b) ∧
    (∀ budget, ∃ taken,
      m.Spends budget taken ∧ m.runFor budget = m.afterSteps taken ∧
        ∀ j, j + 1 < taken → (m.after j).step = .ok .running (m.after (j + 1))) ∧
    (∀ budget,
      let n := (m.runFor budget).state
      m.steps ≤ n.steps ∧ n.steps ≤ m.steps + budget ∧
        (n.status = .running → n.steps = m.steps + budget)) ∧
    (∀ budget, (m.runFor budget).state.status ≠ .running →
      m.run = some (discard (runFor budget) m) ∧
        ∀ larger ≥ budget, m.runFor larger = m.runFor budget) ∧
    ∀ r, m.run = some r →
      ∃ budget ≤ max 1 (r.state.steps - m.steps),
        (m.runFor budget).state.status ≠ .running ∧ discard (runFor budget) m = r := by
  refine ⟨fun a b => ⟨fun fault n h => ?_, fun status n h => ?_⟩, fun budget => ?_,
    fun budget => ?_, fun budget hstop => ?_, fun r hr => ?_⟩
  · rw [runFor_add, Action.bind_of_error h]
  · rw [runFor_add, Action.bind_of_ok h]
  · obtain ⟨taken, h⟩ := exists_spends m budget
    refine ⟨taken, h, h.runFor_eq, fun j hj => ?_⟩
    have hnext := h.running (j + 1) hj
    rw [after_succ] at hnext ⊢
    exact step_of_next_running hnext
  · rw [state_runFor]
    exact steps_after_le m budget
  · rw [state_runFor] at hstop
    exact ⟨run_eq_some_iff.2 (ends_of_runFor hstop), fun larger => runFor_of_stopped hstop⟩
  · simp only [state_runFor]
    exact (run_eq_some_iff.1 hr).exists_runFor

/-- A halt after a digit: a budget of two is enough, and gives the same in two parts. -/
theorem budgets_compose_at_halt :
    let m := start (.ofRows [[.ofChar '1', .ofChar ';']]) [] 0 {} {}
    m.run = some (discard (runFor 2) m) ∧ m.runFor 2 = m.next.runFor 1 := by
  intro m
  obtain ⟨hsum, -, -, hends, -⟩ := budgets_compose m
  have hfirst : m.runFor 1 = .ok .running m.next := by
    rw [runFor_one]
    exact step_of_next_running (by decide +kernel)
  have hstop : (m.runFor 2).state.status ≠ .running := by
    rw [state_runFor]
    decide +kernel
  exact ⟨(hends 2 hstop).1, (hsum 1 1).2 _ _ hfirst⟩

end Machine

end Fish
