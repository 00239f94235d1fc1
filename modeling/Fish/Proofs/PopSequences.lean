import Fish.Proofs.Action
import Fish.Stack.Operator

/-!
# Popping several values

Popping several values together is popping them one after the other: `Stack.pops`. Where these pops
succeed so does `popN`, with their values in their order; where one of them finds nothing both leave
a stack without values, and only the reports differ: that of `popN` says how many values were asked
for and how many there were. Pushing the values again, the last one first, undoes it.

The operators and the command that moves the top value below two others take their values in this
way.

Main lemmas:

* `Stack.pops_eq`                what the pops give and leave
* `Stack.popN_eq_pops`           popping together by popping one after the other
* `Stack.pushAll_of_popN`        the values can be put back
* `Stack.topShift_eq_popN`, `Stack.operate_eq_popN`   where values are popped together
* `Stack.popN_agrees_with_pops`  all of it about one stack
-/

/-- The result with its error replaced. -/
def EStateM.Result.withError {ε σ α : Type} (e : ε) :
    EStateM.Result ε σ α → EStateM.Result ε σ α
  | .ok a s => .ok a s
  | .error _ s => .error e s

namespace Fish.Stack

open Fish.Action

variable {s t : Stack} {n : Nat} {values : List Binary64} {fault : Fault}

/-- Pops so many values one after the other, and gives them in this order. -/
def pops : Nat → Action Stack (List Binary64)
  | 0 => pure []
  | n + 1 => do
    let value ← pop
    let values ← pops n
    return value :: values

/-! ## One after the other -/

/-- The pops give the values from the top on, unless there are too few: then the values are gone
    when one of the pops finds nothing. -/
theorem pops_eq (n : Nat) (s : Stack) :
    pops n s =
      if n ≤ s.size then .ok (s.values.take n) { s with values := s.values.drop n }
      else .error (.stackUnderflow 1 0) { s with values := [] } := by
  -- The induction is on the number of pops, of which the first is from the stack itself.
  induction n generalizing s with
  | zero => rfl
  | succ n ih =>
    rw [pops]
    cases hvalues : s.values with
    | nil =>
      have hpop : pop s = .error (.stackUnderflow 1 0) s := by rw [pop, hvalues]
      rw [bind_of_error hpop, if_neg (by rw [size, hvalues]; exact Nat.not_succ_le_zero n),
        ← hvalues]
    | cons value rest =>
      have hpop : pop s = .ok value { s with values := rest } := by rw [pop, hvalues]
      have hsize : n + 1 ≤ s.size ↔ n ≤ size { s with values := rest } := by
        rw [size, size, hvalues, List.length_cons, Nat.succ_le_succ_iff]
      rw [bind_of_ok hpop, bind_apply, ih]
      by_cases hn : n + 1 ≤ s.size
      · rw [if_pos (hsize.1 hn), if_pos hn]
        rfl
      · rw [if_neg (mt hsize.2 hn), if_neg hn]

/-! ## Together -/

/-- Popping values together is popping them one after the other, but for the report. -/
theorem popN_eq_pops (n : Nat) (s : Stack) :
    popN n s = (pops n s).withError (.stackUnderflow n s.size) := by
  rw [pops_eq, popN]
  split <;> rfl

/-- Popping together succeeds exactly if the pops do, with the same values and the same stack left.
    -/
theorem popN_eq_ok_iff : popN n s = .ok values t ↔ pops n s = .ok values t := by
  rw [popN_eq_pops]
  cases pops n s <;> simp [EStateM.Result.withError]

/-- It fails exactly if they do, with a report of its own and the same stack left. -/
theorem popN_eq_error_iff :
    popN n s = .error fault t ↔
      (∃ f, pops n s = .error f t) ∧ fault = .stackUnderflow n s.size := by
  rw [popN_eq_pops]
  cases pops n s <;> simp [EStateM.Result.withError, and_comm, eq_comm]

/-- A pop that finds nothing has lost all values before it. -/
theorem eq_of_pops_error (h : pops n s = .error fault t) : t = { s with values := [] } := by
  rw [pops_eq] at h
  split at h <;> cases h
  rfl

/-- What was popped can be pushed again, the last value first. -/
theorem pushAll_of_popN (h : popN n s = .ok values t) : pushAll values.reverse t = .ok () s := by
  rw [popN] at h
  split at h <;> cases h
  have hparts : (s.values.take n).reverse.reverse ++ s.values.drop n = s.values := by
    rw [List.reverse_reverse, List.take_append_drop]
  exact congrArg (fun values => EStateM.Result.ok () { s with values }) hparts

/-- All values are as many as there are. -/
theorem popAll_eq_popN (s : Stack) : popAll s = popN s.size s := by
  rw [popN, if_pos (Nat.le_refl _), size, List.take_length, List.drop_length]
  rfl

/-- What was pushed can be popped again, the last value first. -/
theorem popN_of_pushAll (values : List Binary64) (s : Stack) :
    (do pushAll values; popN values.length) s = .ok values.reverse s := by
  have hpush : pushAll values s = .ok () { s with values := values.reverse ++ s.values } := rfl
  have hsize : values.length ≤ size { s with values := values.reverse ++ s.values } := by
    simp [size]
  rw [bind_of_ok hpush, popN, if_pos hsize, List.take_left' List.length_reverse,
    List.drop_left' List.length_reverse]

/-! ## Where values are popped together -/

/-- The command that moves the top value below two others pops the three together. -/
theorem topShift_eq_popN :
    topShift = (do
      let values ← popN 3
      pushAll (values.take 1 ++ (values.drop 1).reverse)) := by
  funext s
  rw [bind_apply, topShift, popN]
  -- Three values on top are enough, and any shorter stack is too short for both.
  match hvalues : s.values with
  | x :: y :: z :: rest =>
    rw [if_pos (by simp [size, hvalues])]
    rfl
  | [] | [_] | [_, _] => rw [if_neg (by simp [size, hvalues])]

/-- An operator pops its operands together, the right one first. -/
theorem operate_eq_popN (op : Operator) :
    operate op = (do
      let values ← popN 2
      match values with
      | [x, y] =>
        match op.apply y x with
        | .ok value => push value
        | .error fault => throw fault
      | _ => pure ()) := by
  funext s
  rw [bind_apply, operate, popN]
  match hvalues : s.values with
  | x :: y :: rest =>
    rw [if_pos (by simp [size, hvalues])]
    simp only [List.take_succ_cons, List.take_zero, List.drop_succ_cons, List.drop_zero]
    cases op.apply y x <;> rfl
  | [] | [_] => rw [if_neg (by simp [size, hvalues])]

/-! ## All of it -/

/-- Popping values together succeeds exactly if so many pops one after the other do, with their
    values in their order and the same stack left, onto which they can be pushed again. Otherwise
    it reports how many were asked for and how many there were, and like the pops that fail it
    leaves no values, and the register alone. All values together are as many as there are. What
    has been pushed together is popped together, in the other order, and the stack is as before. -/
theorem popN_agrees_with_pops (n : Nat) (s : Stack) :
    (∀ values t, popN n s = .ok values t ↔ pops n s = .ok values t) ∧
    (∀ values t, popN n s = .ok values t → pushAll values.reverse t = .ok () s) ∧
    (∀ fault t, popN n s = .error fault t ↔
      (∃ f, pops n s = .error f t) ∧ fault = .stackUnderflow n s.size) ∧
    (∀ fault t, pops n s = .error fault t → t = { s with values := [] }) ∧
    popAll s = popN s.size s ∧
    ∀ values, values.length = n → (do pushAll values; popN n) s = .ok values.reverse s := by
  refine ⟨fun _ _ => popN_eq_ok_iff, fun _ _ => pushAll_of_popN, fun _ _ => popN_eq_error_iff,
    fun _ _ => eq_of_pops_error, popAll_eq_popN s, ?_⟩
  rintro values rfl
  exact popN_of_pushAll values s

/-- Two values under a full register: both of them are popped, a third one is not found, and two
    other values are pushed on top and popped. -/
theorem popN_agrees_with_pops_on_two_values :
    let s : Stack := { values := [.ofNat 1, .nan], register := some (.ofNat 2) }
    let empty : Stack := { register := some (.ofNat 2) }
    (pops 2 s = .ok [.ofNat 1, .nan] empty ∧ popN 2 s = .ok [.ofNat 1, .nan] empty ∧
      pushAll [.nan, .ofNat 1] empty = .ok () s) ∧
    (pops 3 s = .error (.stackUnderflow 1 0) empty ∧
      popN 3 s = .error (.stackUnderflow 3 2) empty ∧ empty = { s with values := [] }) ∧
    (do pushAll [.ofNat 3, .nan]; popN 2) s = .ok [.nan, .ofNat 3] s := by
  intro s empty
  obtain ⟨hvalues, hpushed, -, -, -, hpopped⟩ := popN_agrees_with_pops 2 s
  obtain ⟨-, -, hfault, hempty, -⟩ := popN_agrees_with_pops 3 s
  have htwo : pops 2 s = .ok [.ofNat 1, .nan] empty := rfl
  have hthree : pops 3 s = .error (.stackUnderflow 1 0) empty := rfl
  have hboth := (hvalues _ _).2 htwo
  have hshort := (hfault _ _).2 ⟨⟨_, hthree⟩, rfl⟩
  exact ⟨⟨htwo, hboth, hpushed _ _ hboth⟩, ⟨hthree, hshort, hempty _ _ hthree⟩,
    hpopped [.ofNat 3, .nan] rfl⟩

end Fish.Stack
