import Fish.Proofs.Action
import Fish.Stack.Basic
import Mathlib.Data.List.Rotate

/-!
# Moves that lead back

An action that is carried out again and again may come back to where it began. If so it never fails
on the way, and it is back after every multiple of the period: `Action.Cycles`. It is enough to know
what undoes a single time.

The moves of values on a stack are such actions. The two shifts undo each other, and one of them is
the other on the stack turned upside down; each goes around a stack in as many times as it has
values. Exchanging the two values on top, turning the stack upside down and exchanging a value with
the register undo themselves, and moving the top value below the two under it leads back after three
times.

Main lemmas:

* `Action.Undoes.times`            what undoes an action undoes it so many times
* `Action.exists_times`            an action that is back once comes back again and again
* `Stack.exists_times_shiftRight`  where the values are after so many shifts
* `Stack.reverse_shiftRight_reverse`   a shift upside down is the other one
* `Stack.moves_cycle`              all of it together
-/

namespace Fish

namespace Action

variable {σ : Type} {act back : Action σ Unit} {s t : σ} {m n period : Nat}

/-! ## Actions carried out again and again -/

/-- Carries out an action so many times. -/
def times : Nat → Action σ Unit → Action σ Unit
  | 0, _ => pure ()
  | n + 1, act => do
    act
    times n act

/-- So many times that succeed, and then more. -/
theorem times_add_of_ok (h : times m act s = .ok () t) (n : Nat) :
    times (m + n) act s = times n act t := by
  induction m generalizing s with
  | zero =>
    cases h
    rw [Nat.zero_add]
  | succ m ih =>
    rw [Nat.add_right_comm, times]
    rw [times] at h
    -- The first time has succeeded, or else all of them would have failed with it.
    cases hact : act s with
    | ok a u =>
      rw [bind_of_ok hact] at h ⊢
      exact ih h
    | error fault u =>
      rw [bind_of_error hact] at h
      cases h

/-- If all times succeed then so do the first ones, and from there the others. -/
theorem exists_of_times_add (h : times (m + n) act s = .ok () t) :
    ∃ u, times m act s = .ok () u ∧ times n act u = .ok () t := by
  induction m generalizing s with
  | zero =>
    rw [Nat.zero_add] at h
    exact ⟨s, rfl, h⟩
  | succ m ih =>
    rw [Nat.add_right_comm, times] at h
    cases hact : act s with
    | ok a v =>
      rw [bind_of_ok hact] at h
      obtain ⟨u, hfirst, hothers⟩ := ih h
      exact ⟨u, (bind_of_ok hact).trans hfirst, hothers⟩
    | error fault v =>
      rw [bind_of_error hact] at h
      cases h

/-- Once is the action itself. -/
theorem times_one (act : Action σ Unit) : times 1 act = act := by
  funext s
  rw [times, bind_apply]
  cases act s <;> rfl

/-- After the one action the other leads back. -/
def Undoes (back act : Action σ Unit) : Prop := ∀ s t, act s = .ok () t → back t = .ok () s

/-- What undoes an action undoes it so many times. -/
theorem Undoes.times (h : Undoes back act) (n : Nat) : Undoes (times n back) (times n act) := by
  induction n with
  | zero =>
    intro s t hst
    cases hst
    rfl
  | succ n ih =>
    intro s t hst
    -- The time that was first is undone last.
    rw [Nat.add_comm] at hst
    obtain ⟨u, hfirst, hothers⟩ := exists_of_times_add hst
    rw [times_one] at hfirst
    rw [times_add_of_ok (ih u t hothers), times_one]
    exact h s u hfirst

/-! ## Coming back -/

/-- From a state where the action is carried out once it can be carried out any number of times,
    and multiples of the period lead back. -/
def Cycles (period : Nat) (act : Action σ Unit) : Prop :=
  ∀ s t, act s = .ok () t → ∀ k, ∃ u, times k act s = .ok () u ∧ (period ∣ k → u = s)

/-- So many times the period leads back as well. -/
theorem times_mul (h : times period act s = .ok () s) (n : Nat) :
    times (period * n) act s = .ok () s := by
  induction n with
  | zero => rfl
  | succ n ih => rw [Nat.mul_succ, times_add_of_ok ih, h]

/-- An action that is back once comes back again and again, and never fails on the way. -/
theorem exists_times (hperiod : 0 < period) (h : times period act s = .ok () s) (k : Nat) :
    ∃ u, times k act s = .ok () u ∧ (period ∣ k → u = s) := by
  -- Going around once for every time leads at least as far.
  have hround : k + (period * k - k) = period * k :=
    Nat.add_sub_cancel' (Nat.le_mul_of_pos_left k hperiod)
  have hfar : times (k + (period * k - k)) act s = .ok () s := by
    rw [hround]
    exact times_mul h k
  obtain ⟨u, hu, -⟩ := exists_of_times_add hfar
  refine ⟨u, hu, ?_⟩
  rintro ⟨n, rfl⟩
  rw [times_mul h n] at hu
  cases hu
  rfl

/-- The action leads back if what undoes it is to carry it out a few times more. -/
theorem Undoes.cycles (h : Undoes (Action.times n act) act) : Cycles (n + 1) act := by
  intro s t hst
  apply exists_times n.succ_pos
  rw [Action.times, bind_of_ok hst]
  exact h s t hst

/-- An action that undoes itself leads back after two times. -/
theorem Undoes.cycles_two (h : Undoes act act) : Cycles 2 act :=
  Undoes.cycles (by rwa [times_one])

end Action

namespace Stack

open Fish.Action

variable {s t : Stack}

/-! ## The two shifts -/

/-- There are as many values from the bottom as from the top. -/
theorem length_toList (s : Stack) : s.toList.length = s.size := List.length_reverse

/-- Values that are only rotated are as many as before. -/
theorem size_of_rotate {k : Nat} (h : t.toList.rotate k = s.toList) : t.size = s.size := by
  rw [← length_toList t, ← List.length_rotate t.toList k, h, length_toList]

/-- A shift to the right of a stack that has values. From the bottom on, rotating the values to the
    left gives those of before. -/
theorem exists_shiftRight (h : 1 ≤ s.size) :
    ∃ t, shiftRight s = .ok () t ∧ t.toList.rotate 1 = s.toList ∧ t.register = s.register := by
  cases hvalues : s.values with
  | nil =>
    rw [size, hvalues] at h
    exact absurd h (by decide)
  | cons x rest =>
    refine ⟨{ s with values := rest ++ [x] }, by rw [shiftRight, hvalues], ?_, rfl⟩
    rw [toList, toList, hvalues, List.reverse_concat, List.rotate_cons_succ, List.rotate_zero,
      List.reverse_cons]

/-- So many shifts to the right. -/
theorem exists_times_shiftRight (h : 1 ≤ s.size) (k : Nat) :
    ∃ t, times k shiftRight s = .ok () t ∧ t.toList.rotate k = s.toList ∧
      t.register = s.register := by
  -- The first shift leaves as many values, so the others can follow; their rotations add up.
  induction k generalizing s with
  | zero => exact ⟨s, rfl, List.rotate_zero _, rfl⟩
  | succ k ih =>
    obtain ⟨u, hfirst, hrotate, hregister⟩ := exists_shiftRight h
    obtain ⟨t, hothers, hrotates, hregisters⟩ := ih (size_of_rotate hrotate ▸ h)
    refine ⟨t, (bind_of_ok hfirst).trans hothers, ?_, hregisters.trans hregister⟩
    rw [← List.rotate_rotate, hrotates, hrotate]

/-- As many shifts as there are values lead around the stack. -/
theorem times_size_shiftRight (h : 1 ≤ s.size) : times s.size shiftRight s = .ok () s := by
  obtain ⟨t, haround, hrotate, hregister⟩ := exists_times_shiftRight h s.size
  have hvalues : t.toList = s.toList := by
    rwa [← size_of_rotate hrotate, ← length_toList, List.rotate_length] at hrotate
  have hself : t = s := Stack.ext (List.reverse_injective hvalues) hregister
  rwa [hself] at haround

/-- A shift to the left undoes one to the right. -/
theorem undoes_shiftLeft : Undoes shiftLeft shiftRight := by
  intro s t h
  rw [shiftRight] at h
  split at h <;> cases h
  rename_i x rest hvalues
  simp only [shiftLeft, List.getLast?_concat, List.dropLast_concat, ← hvalues]

/-- A shift to the right undoes one to the left. -/
theorem undoes_shiftRight : Undoes shiftRight shiftLeft := by
  intro s t h
  rw [shiftLeft] at h
  split at h <;> cases h
  rename_i x hlast
  simp only [shiftRight, List.dropLast_append_getLast? x hlast]

/-- A shift to the right of the stack turned upside down is a shift to the left. -/
theorem reverse_shiftRight_reverse :
    (do reverse; shiftRight; reverse : Action Stack Unit) = shiftLeft := by
  funext s
  have hturn : reverse s = .ok () { s with values := s.values.reverse } := rfl
  rw [bind_of_ok hturn]
  rcases List.eq_nil_or_concat' s.values with hvalues | ⟨upper, x, hvalues⟩
  · -- An empty stack is the same upside down.
    have hself : { s with values := s.values.reverse } = s := by
      rw [hvalues, List.reverse_nil, ← hvalues]
    have hright : shiftRight s = .error (.stackUnderflow 1 0) s := by rw [shiftRight, hvalues]
    rw [hself, bind_of_error hright, shiftLeft, hvalues, List.getLast?_nil]
  · have hright : shiftRight { s with values := s.values.reverse } =
        .ok () { s with values := upper.reverse ++ [x] } := by
      rw [hvalues, List.reverse_concat]
      rfl
    have hback : reverse { s with values := upper.reverse ++ [x] } =
        .ok () { s with values := x :: upper } := by
      show EStateM.Result.ok () { s with values := (upper.reverse ++ [x]).reverse } = _
      rw [List.reverse_concat, List.reverse_reverse]
    rw [bind_of_ok hright, hback, shiftLeft, hvalues, List.getLast?_concat, List.dropLast_concat]

/-! ## The other moves -/

/-- An exchange undoes itself. -/
theorem undoes_swap : Undoes swap swap := by
  intro s t h
  rw [swap] at h
  split at h <;> cases h
  rename_i x y rest hvalues
  simp only [swap, ← hvalues]

/-- Turning the stack upside down undoes itself. -/
theorem undoes_reverse : Undoes reverse reverse := by
  intro s t h
  cases h
  show EStateM.Result.ok () { s with values := s.values.reverse.reverse } = .ok () s
  rw [List.reverse_reverse]

/-- A value goes to the register and back, and one that was in the register comes back to it. -/
theorem undoes_toggleRegister : Undoes toggleRegister toggleRegister := by
  intro s t h
  rw [toggleRegister] at h
  split at h <;> cases h
  · rename_i value hregister
    simp only [toggleRegister, ← hregister]
  · rename_i value rest hregister hvalues
    simp only [toggleRegister, ← hregister, ← hvalues]

/-- Of three values each has been on top after three times. -/
theorem undoes_topShift : Undoes (times 2 topShift) topShift := by
  intro s t h
  rw [topShift] at h
  split at h <;> cases h
  rename_i x y z rest hvalues
  show EStateM.Result.ok () { s with values := x :: y :: z :: rest } = .ok () s
  rw [← hvalues]

/-! ## All moves -/

/-- On a stack that has values so many shifts to the right take the value at each place so many
    places up, around the stack and with nothing done to the register. As many shifts to the left
    undo them, and the other way round, and a multiple of the number of values leads back. A shift
    to the left is one to the right upside down. The other moves lead back after two times, and the
    one of the three values on top after three; if one of them succeeds once then it never fails,
    however often it is carried out. -/
theorem moves_cycle (h : 1 ≤ s.size) (k : Nat) :
    (∃ t, times k shiftRight s = .ok () t ∧ t.register = s.register ∧ t.size = s.size ∧
      (∀ i, i < s.size → t.toList[(i + k) % s.size]? = s.toList[i]?) ∧
      times k shiftLeft t = .ok () s ∧ (s.size ∣ k → t = s)) ∧
    (∃ t, times k shiftLeft s = .ok () t ∧ times k shiftRight t = .ok () s) ∧
    (do reverse; shiftRight; reverse : Action Stack Unit) = shiftLeft ∧
    Cycles 2 swap ∧ Cycles 2 reverse ∧ Cycles 2 toggleRegister ∧ Cycles 3 topShift := by
  have haround := times_size_shiftRight h
  refine ⟨?_, ?_, reverse_shiftRight_reverse, undoes_swap.cycles_two, undoes_reverse.cycles_two,
    undoes_toggleRegister.cycles_two, undoes_topShift.cycles⟩
  · obtain ⟨t, hshift, hrotate, hregister⟩ := exists_times_shiftRight h k
    have hsize := size_of_rotate hrotate
    refine ⟨t, hshift, hregister, hsize, fun i hi => ?_, undoes_shiftLeft.times k s t hshift, ?_⟩
    · have hlt : i < t.toList.length := by rwa [length_toList, hsize]
      rw [← hrotate, List.getElem?_rotate hlt, length_toList, hsize]
    · obtain ⟨u, hshift', hmultiple⟩ := exists_times h haround k
      rw [hshift] at hshift'
      cases hshift'
      exact hmultiple
  · -- What goes around the stack undone goes around it the other way.
    have hback : times s.size shiftLeft s = .ok () s := undoes_shiftLeft.times s.size s s haround
    obtain ⟨t, hshift, -⟩ := exists_times h hback k
    exact ⟨t, hshift, undoes_shiftRight.times k s t hshift⟩

/-- Three values under a full register: four shifts, six shifts, and the register emptied onto the
    stack and filled again. -/
theorem moves_cycle_of_full_register :
    let s : Stack := { values := [.ofNat 1, .nan, .ofNat 3], register := some .nan }
    1 ≤ s.size ∧
      (∃ t, times 4 shiftRight s = .ok () t ∧ 1 < s.size ∧
        t.toList[(1 + 4) % s.size]? = some .nan) ∧
      (∃ t, times 6 shiftRight s = .ok () t ∧ s.size ∣ 6 ∧ t = s) ∧
      ∃ t, toggleRegister s = .ok () t ∧ t.size = 4 ∧ times 2 toggleRegister s = .ok () s := by
  intro s
  have hsize : 1 ≤ s.size := by decide
  have hplace : 1 < s.size := by decide
  have hmultiple : s.size ∣ 6 := ⟨2, rfl⟩
  obtain ⟨⟨t, hfour, -, -, hplaces, -⟩, -⟩ := moves_cycle hsize 4
  obtain ⟨⟨u, hsix, -, -, -, -, hback⟩, -, -, -, -, htoggle, -⟩ := moves_cycle hsize 6
  obtain ⟨v, htwice, hself⟩ := htoggle s _ rfl 2
  rw [hself (Nat.dvd_refl 2)] at htwice
  exact ⟨hsize, ⟨t, hfour, hplace, hplaces 1 hplace⟩, ⟨u, hsix, hmultiple, hback hmultiple⟩,
    _, rfl, rfl, htwice⟩

end Stack

end Fish
