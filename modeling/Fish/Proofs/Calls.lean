import Fish.Proofs.Steps

/-!
# Calls on a machine

From outside a machine is used by three calls: a single step, a run with a budget, and a run
without one, which need not return. `History` is a finite sequence of calls that return, each made
on the machine that the one before has left. Whatever the calls are, the machines of a history
belong to the sequence `Machine.after` of the first one.

Main lemmas:

* `History.exists_after`   a history leads to a machine after some number of steps
* `history_steps`          each of these machines is reached by single steps
* `History.invariant`      what every step keeps holds of all machines of a history
-/

namespace Fish.Machine

/-- A call on a machine. -/
inductive Call
  | step
  | runFor (budget : Nat)
  | run
deriving DecidableEq, Repr

/-- What a call leaves: a machine, and a fault or what the call reports. -/
abbrev Result := EStateM.Result Fault Machine (Option Status)

namespace Call

/-- What a call that succeeds reports: the status, but nothing after a run without a budget. -/
def report : Call → Status → Option Status
  | step, status => some status
  | runFor _, status => some status
  | run, _ => none

/-- The result of an operation with another report. -/
def resultOf {α : Type} (f : α → Option Status) : EStateM.Result Fault Machine α → Result
  | .ok a m => .ok (f a) m
  | .error fault m => .error fault m

/-- The result of a call; `none` if it does not return. -/
def perform : Call → Machine → Option Result
  | step, m => some (resultOf some m.step)
  | runFor budget, m => some (resultOf some (m.runFor budget))
  | run, m => m.run.map (resultOf fun _ => none)

/-- Another report does not change the machine that is left. -/
theorem state_resultOf {α : Type} (f : α → Option Status)
    (r : EStateM.Result Fault Machine α) : (resultOf f r).state = r.state := by
  cases r <;> rfl

end Call

/-- A call that has returned, with its result. -/
structure Exchange where
  call : Call
  result : Result

/-- The calls made one after the other from a machine on, and the machine that the last one has
    left. -/
inductive History : Machine → List Exchange → Machine → Prop
  | nil {m : Machine} : History m [] m
  | cons {m n : Machine} {call : Call} {result : Result} {es : List Exchange} :
    call.perform m = some result → History result.state es n →
    History m (⟨call, result⟩ :: es) n

variable {m n : Machine} {call : Call} {result : Result} {es : List Exchange}

/-- A call leaves a machine after some number of steps. -/
theorem Call.exists_after (h : call.perform m = some result) : ∃ k, result.state = m.after k := by
  -- A step is one, a limited run is its budget, and an unlimited one ends after some number.
  cases call with
  | step =>
    cases h
    exact ⟨1, state_resultOf ..⟩
  | runFor budget =>
    cases h
    exact ⟨budget, (state_resultOf ..).trans (state_runFor budget m)⟩
  | run =>
    obtain ⟨r, hr, rfl⟩ := Option.map_eq_some_iff.1 h
    obtain ⟨k, hk⟩ := (run_eq_some_iff.1 hr).exists_after
    exact ⟨k, (state_resultOf ..).trans hk⟩

/-- A history leads to a machine after some number of steps. -/
theorem History.exists_after (h : History m es n) : ∃ k, n = m.after k := by
  -- By induction on the calls, whose numbers of steps add up.
  induction h with
  | nil => exact ⟨0, rfl⟩
  | cons hcall _ ih =>
    obtain ⟨j, hj⟩ := Call.exists_after hcall
    obtain ⟨k, rfl⟩ := ih
    -- The call took `j` steps, and the rest of the history `k`.
    rw [hj, after_after]
    exact ⟨k + j, rfl⟩

/-- Every machine after a number of steps, those that a longer run passes through included, is
    reached by single steps. -/
theorem history_steps (m : Machine) (k : Nat) : ∃ es, History m es (m.after k) := by
  induction k generalizing m with
  | zero => exact ⟨[], .nil⟩
  | succ k ih =>
    obtain ⟨es, hes⟩ := ih m.next
    refine ⟨⟨.step, Call.resultOf some m.step⟩ :: es, .cons rfl ?_⟩
    rw [Call.state_resultOf]
    exact hes

/-- What holds of a machine and is kept by every step holds of what every history leads to. -/
theorem History.invariant {P : Machine → Prop} (h : History m es n)
    (hnext : ∀ n, P n → P n.next) (hm : P m) : P n := by
  obtain ⟨k, rfl⟩ := h.exists_after
  exact after_induction hnext hm k

end Fish.Machine
