import Fish.Proofs.Lockstep
import Fish.Proofs.SubStacks

/-!
# Values that lie deeper than a program reaches

An instruction takes what it needs from the top of the active stack. If there is enough, then it
makes no difference what lies under it: with more values put under the lowest stack it does the
same and leaves the same, with those values still under the lowest stack. Only the length of a
stack, its reversal, its two shifts and its closing concern all of its values; if the lowest stack
is the active one then these instructions see what was put under it, and a sub-stack shields it
from them.

A run that never runs short, and that does not execute one of the five on the lowest stack, is
therefore the same run with more values under it.

Main lemmas:

* `Stack.Shallow`                  an action on a stack that does not see what lies deeper
* `Tower.alike_perform`            stack commands on towers with more values at the bottom
* `Machine.step_atop`              a step of machines with such towers
* `Machine.deep_values_unseen`     all steps of a run
-/

namespace Fish

/-- The fault of an instruction that runs short of values. -/
def Fault.IsUnderflow : Fault → Prop
  | .stackUnderflow _ _ => True
  | _ => False

/-! ## One stack -/

namespace Stack

variable {α β : Type} {base : List Binary64}

/-- The stack with more values under it, the bottom first. -/
def atop (base : List Binary64) (s : Stack) : Stack := { s with values := s.values ++ base.reverse }

/-- From below, the other values come first. -/
theorem toList_atop (s : Stack) : (s.atop base).toList = base ++ s.toList := by
  simp [atop, toList]

/-- The action does the same with more values under the stack, unless it runs short of values. -/
def Shallow (act : Action Stack α) : Prop :=
  ∀ base, Action.Respects (fun s t => t = s.atop base) Fault.IsUnderflow act

/-- A pop looks at the top only. -/
theorem shallow_pop : Shallow pop := by
  rintro base ⟨values, register⟩ _ rfl
  match values with
  | [] => exact .exempted trivial
  | _ :: _ => exact .ok rfl

/-- So does a push. -/
theorem shallow_push (value : Binary64) : Shallow (push value) := by
  rintro base s _ rfl
  exact .ok rfl

/-- So does a duplication. -/
theorem shallow_duplicate : Shallow duplicate := by
  rintro base ⟨values, register⟩ _ rfl
  match values with
  | [] => exact .exempted trivial
  | _ :: _ => exact .ok rfl

/-- So does a removal. -/
theorem shallow_remove : Shallow (discard pop) := by
  rintro base ⟨values, register⟩ _ rfl
  rw [Machine.discard_pop_apply, Machine.discard_pop_apply]
  match values with
  | [] => exact .exempted trivial
  | _ :: _ => exact .ok rfl

/-- A swap looks at two values. -/
theorem shallow_swap : Shallow swap := by
  rintro base ⟨values, register⟩ _ rfl
  match values with
  | [] | [_] => exact .exempted trivial
  | _ :: _ :: _ => exact .ok rfl

/-- A shift of the three topmost values looks at those. -/
theorem shallow_topShift : Shallow topShift := by
  rintro base ⟨values, register⟩ _ rfl
  match values with
  | [] | [_] | [_, _] => exact .exempted trivial
  | _ :: _ :: _ :: _ => exact .ok rfl

/-- A full register needs no value, and an empty one takes one from the top. -/
theorem shallow_toggleRegister : Shallow toggleRegister := by
  rintro base ⟨values, register⟩ _ rfl
  match register, values with
  | some _, _ => exact .ok rfl
  | none, [] => exact .exempted trivial
  | none, _ :: _ => exact .ok rfl

/-- An operator looks at two values, and faults for them alike. -/
theorem shallow_operate (op : Operator) : Shallow (operate op) := by
  rintro base ⟨values, register⟩ _ rfl
  match values with
  | [] | [_] => exact .exempted trivial
  | x :: y :: rest =>
    -- The operands are the same, and so is what the operator has for them.
    simp only [operate, atop, List.cons_append]
    cases op.apply y x with
    | ok value => exact .ok rfl
    | error fault => exact .error rfl

/-- A count that can be served can be served of more. -/
theorem countWithin_of_le {count : Binary64} {available more size : Nat}
    (h : countWithin count available = some size) (hle : available ≤ more) :
    countWithin count more = some size := by
  cases count with
  | nan => exact h
  | infinite negative => cases h
  | finite negative units hrep =>
    simp only [countWithin] at h ⊢
    -- The sign does not depend on how many values there are, and the bound only gets wider.
    split at h
    · cases h
    · next hsign =>
      rw [if_neg hsign]
      split at h
      · rw [if_pos (by omega), h]
      · cases h

/-- The values that are split off lie on top of the others. -/
theorem shallow_splitOff : Shallow splitOff := by
  rintro base ⟨values, register⟩ _ rfl
  match values with
  | [] => exact .exempted trivial
  | count :: rest =>
    simp only [splitOff, atop, List.cons_append]
    -- A count that is too great for the values here is a shortfall, which is exempt.
    cases hcount : countWithin count rest.length with
    | none => exact .exempted trivial
    | some size =>
      have hsize := countWithin_le hcount
      have hmore : countWithin count (rest ++ base.reverse).length = some size :=
        countWithin_of_le hcount (by simp)
      simp only [hmore, List.take_append_of_le_length hsize, List.drop_append_of_le_length hsize]
      exact .ok rfl

end Stack

/-- The instruction concerns all values of the active stack, and not only those on top. -/
def Instruction.concernsAll : Instruction → Bool
  | .stack .length => true
  | .stack .reverse => true
  | .stack .shiftRight => true
  | .stack .shiftLeft => true
  | .stack .closeStack => true
  | _ => false

/-! ## The tower -/

namespace Tower

variable {α : Type} {base : List Binary64} {t : Tower}

/-- The stacks of a list, the lowest last, with more values under the lowest. -/
def atopLowest (base : List Binary64) : List Stack → List Stack
  | [] => []
  | [lowest] => [lowest.atop base]
  | s :: t :: rest => s :: atopLowest base (t :: rest)

/-- The tower with more values under its lowest stack, the bottom first. -/
def atop (base : List Binary64) (t : Tower) : Tower :=
  match t.below with
  | [] => { t with active := t.active.atop base }
  | below => { t with below := atopLowest base below }

/-- The lowest stack comes first when the stacks are listed from below. -/
theorem reverse_atopLowest (base : List Binary64) (s : Stack) (below : List Stack) :
    ∃ lowest upper, (s :: below).reverse = lowest :: upper ∧
      (atopLowest base (s :: below)).reverse = lowest.atop base :: upper := by
  -- By induction on the stacks, from the active one downwards.
  induction below generalizing s with
  | nil => exact ⟨s, [], rfl, rfl⟩
  | cons u below ih =>
    obtain ⟨lowest, upper, hplain, hatop⟩ := ih u
    refine ⟨lowest, upper ++ [s], ?_, ?_⟩
    · rw [List.reverse_cons, hplain, List.cons_append]
    · rw [atopLowest, List.reverse_cons, hatop, List.cons_append]

/-- All stacks but the lowest one are the same. -/
theorem toList_atop (base : List Binary64) (t : Tower) :
    ∃ lowest upper, t.toList = lowest :: upper ∧
      (t.atop base).toList = lowest.atop base :: upper := by
  have hstacks : (t.atop base).toList = (atopLowest base (t.active :: t.below)).reverse := by
    obtain ⟨active, below⟩ := t
    cases below <;> rfl
  rw [hstacks]
  exact reverse_atopLowest base t.active t.below

/-- Work on the active stack is the same if this is not the lowest one, whatever the work is; on the
    lowest stack the work has to be such. -/
theorem alike_onActive {act : Action Stack α} (h : t.below = [] → Stack.Shallow act) :
    (onActive act t).Alike (fun t u => u = t.atop base) Fault.IsUnderflow
      (onActive act (t.atop base)) := by
  obtain ⟨active, below⟩ := t
  match below with
  | [] =>
    apply Action.alike_on (h rfl base active _ rfl)
    rintro s _ rfl
    rfl
  | parent :: rest =>
    -- The lowest stack is below, where the work does not get to.
    refine Action.alike_on (S := Eq) (.refl _) ?_
    rintro s _ rfl
    rfl

/-- Such work on the active stack is the same in both towers. -/
theorem respects_onActive {act : Action Stack α} (h : Stack.Shallow act) :
    Action.Respects (fun t u => u = t.atop base) Fault.IsUnderflow (onActive act) := by
  rintro t _ rfl
  exact alike_onActive fun _ => h

/-- The values of the new stack are taken from the top, so what lies deeper stays below it. -/
theorem respects_openStack :
    Action.Respects (fun t u => u = t.atop base) Fault.IsUnderflow openStack := by
  apply (respects_onActive Stack.shallow_splitOff).bind
  intro child
  apply Action.Respects.modify
  rintro ⟨active, below⟩ _ rfl
  cases below <;> rfl

/-- A stack that is closed over another one leaves what lies under that. -/
theorem alike_closeStack (h : t.below ≠ []) :
    (closeStack t).Alike (fun t u => u = t.atop base) Fault.IsUnderflow
      (closeStack (t.atop base)) := by
  obtain ⟨active, below⟩ := t
  apply EStateM.Result.Alike.ok
  -- The parent may be the lowest stack itself, and then the other values are under it.
  match below with
  | [] => contradiction
  | [parent] => simp [atop, atopLowest, Stack.atop, Stack.absorb]
  | parent :: u :: rest => rfl

/-- A command is the same with more values under the lowest stack, unless this is the active one and
    the command concerns the whole of it. -/
theorem alike_perform {command : StackCommand}
    (h : t.below = [] → (Instruction.stack command).concernsAll = false) :
    (perform command t).Alike (fun t u => u = t.atop base) Fault.IsUnderflow
      (perform command (t.atop base)) := by
  -- Most commands look at the top only; the last two groups need a stack below the active one.
  cases command with
  | duplicate => exact respects_onActive Stack.shallow_duplicate _ _ rfl
  | remove => exact respects_onActive Stack.shallow_remove _ _ rfl
  | swap => exact respects_onActive Stack.shallow_swap _ _ rfl
  | topShift => exact respects_onActive Stack.shallow_topShift _ _ rfl
  | register => exact respects_onActive Stack.shallow_toggleRegister _ _ rfl
  | openStack => exact respects_openStack _ _ rfl
  | closeStack => exact alike_closeStack fun hb => nomatch h hb
  | length | reverse | shiftRight | shiftLeft => exact alike_onActive fun hb => nomatch h hb

end Tower

namespace Machine

variable {base : List Binary64} {m : Machine} {cell : Cell}

/-- The machine with more values under its lowest stack, the bottom first. -/
def atop (base : List Binary64) (m : Machine) : Machine := { m with tower := m.tower.atop base }

/-- The second machine is the first one with more values under the lowest stack. -/
def IsAtop (base : List Binary64) (m n : Machine) : Prop := n = m.atop base

/-- Everything but the stacks is the same in both machines. -/
theorem shares_atop {p : Part} (hp : p ∉ [Part.active, .below]) : Shares (IsAtop base) p where
  same {m n} h := by
    cases h
    cases p <;> first | rfl | simp at hp
  put {m n} c h := by
    cases h
    cases p <;> first | rfl | simp at hp

/-- Work that is the same for both towers is the same for the machines. -/
theorem alike_onTower {α : Type} {act : Action Tower α}
    (h : (act m.tower).Alike (fun t u => u = t.atop base) Fault.IsUnderflow
      (act (m.tower.atop base))) :
    (onTower act m).Alike (IsAtop base) Fault.IsUnderflow
      (onTower act (m.atop base)) := by
  apply Action.alike_on h
  rintro t _ rfl
  rfl

/-- Values are popped and pushed alike. -/
theorem respectsValues_atop : RespectsValues (IsAtop base) Fault.IsUnderflow where
  pop := by
    rintro m _ rfl
    exact alike_onTower (Tower.respects_onActive Stack.shallow_pop _ _ rfl)
  push value := by
    rintro m _ rfl
    exact alike_onTower (Tower.respects_onActive (Stack.shallow_push value) _ _ rfl)

/-! ## Cells and steps -/

/-- An instruction is the same with more values under the lowest stack, unless this is the active
    one and the instruction concerns all of its values. -/
theorem obey_atop (h : m.tower.below = [] → cell.instruction.concernsAll = false) :
    (obey cell m).Alike (IsAtop base) Fault.IsUnderflow (obey cell (m.atop base)) := by
  have hatop : IsAtop base m (m.atop base) := rfl
  apply obey_alike hatop fun p _ => shares_atop
  · intro _
    exact respectsValues_atop
  · -- Only operators and stack commands work on the tower.
    intro act hact
    cases hi : cell.instruction with
    | operator op =>
      rw [hi] at hact
      cases hact
      exact alike_onTower (Tower.respects_onActive (Stack.shallow_operate op) _ _ rfl)
    | stack command =>
      rw [hi] at hact h
      cases hact
      exact alike_onTower (Tower.alike_perform h)
    | _ =>
      rw [hi] at hact
      cases hact

/-- The two machines travel alike, since nothing but the tower differs. -/
theorem travels_atop : Travels (IsAtop base) where
  cell h := by cases h; rfl
  pace h := by cases h; rfl
  shares p hp := by
    apply shares_atop
    cases p <;> simp at hp ⊢

/-- A step is the same with more values under the lowest stack. -/
theorem step_atop
    (hroot : m.status = .running → m.quoting = false → m.tower.depth = 1 →
      ∀ cell, m.cell? = some cell → cell.instruction.concernsAll = false) :
    m.step.Alike (IsAtop base) Fault.IsUnderflow (m.atop base).step := by
  have hatop : IsAtop base m (m.atop base) := rfl
  apply step_alike travels_atop hatop
  intro hrun cell hc
  have hcounted : IsAtop base m.counted (m.atop base).counted := rfl
  apply execute_alike hcounted rfl
  · intro _ _
    exact respectsValues_atop
  · intro hobey
    apply obey_atop
    intro hbelow
    -- A cell outside quotes is covered by the hypothesis, and a quote concerns no values at all.
    rcases hobey with hq | hi
    · have hdepth : m.tower.depth = 1 := congrArg (fun below => List.length below + 1) hbelow
      exact hroot hrun hq hdepth cell hc
    · rw [hi]
      rfl

/-! ## Runs -/

/-- A program is run twice, on some values and on these values with others beneath. Let none of the
    first steps of the first run run short of values, and let none of them execute one of the
    instructions that concern all values of a stack, outside quotes, while only the lowest stack is
    open. Then these steps have the same answers in the second run, and after them the two machines
    are the same in everything but the lowest stack, and this has the same register in both, and in
    the second machine the other values beneath those of the first. -/
theorem deep_values_unseen (grid : Grid) (base values : List Binary64) (seed : UInt64)
    (input : Input) (output : Output) (k : Nat) :
    let m := start grid values seed input output
    let n := start grid (base ++ values) seed input output
    (∀ j < k, ∀ required available last,
      (m.after j).step ≠ .error (.stackUnderflow required available) last) →
    (∀ j < k, (m.after j).status = .running → (m.after j).quoting = false →
      (m.after j).tower.depth = 1 →
      ∀ cell, (m.after j).cell? = some cell → cell.instruction.concernsAll = false) →
    (∀ j < k, (n.after j).step = (m.after j).step.mapState (atop base)) ∧
    n.after k = { m.after k with tower := (n.after k).tower } ∧
    ∃ lowest lowest' upper, (m.after k).tower.toList = lowest :: upper ∧
      (n.after k).tower.toList = lowest' :: upper ∧ lowest'.register = lowest.register ∧
      lowest'.toList = base ++ lowest.toList := by
  intro m n hshort hroot
  -- From the start on the second machine is the first one with the other values beneath.
  have hstart : IsAtop base m n := by
    simp [IsAtop, n, m, start, atop, Tower.atop, Tower.ofStack, Stack.atop, Stack.ofList]
  -- A fault that is exempt is one of those that are ruled out.
  have hnone : ∀ j < k, ∀ fault last, (m.after j).step = .error fault last →
      ¬fault.IsUnderflow := by
    intro j hj fault last hfault hunderflow
    cases fault with
    | stackUnderflow required available => exact hshort j hj _ _ _ hfault
    | _ => exact hunderflow
  -- All steps before are alike, so the two machines stay in step.
  have hsame : ∀ j ≤ k, IsAtop base (m.after j) (n.after j) := by
    intro j hj
    apply related_after hstart
    · intro i hi h
      rw [h]
      exact step_atop (hroot i (by omega))
    · intro i hi
      exact hnone i (by omega)
  refine ⟨fun j hj => ?_, ?_, ?_⟩
  · rw [hsame j (by omega)]
    exact (step_atop (hroot j hj)).eq_mapState (hnone j hj)
  · rw [hsame k (Nat.le_refl k)]
    rfl
  · obtain ⟨lowest, upper, hplain, hatop⟩ := (m.after k).tower.toList_atop base
    rw [hsame k (Nat.le_refl k)]
    exact ⟨lowest, lowest.atop base, upper, hplain, hatop, rfl, lowest.toList_atop⟩

/-- Two values go to a stack of their own, which is turned upside down and asked for its length, and
    come back; the eighth step is a division by zero. -/
theorem deep_values_unseen_in_brackets :
    let grid := Grid.ofRows [['2', '[', 'r', 'l', ']', '+', '0', ','].map Cell.ofChar]
    let base := [.nan, .ofNat 1]
    let m := start grid [.ofNat 5, .ofNat 6, .ofNat 7] 0 {} {}
    let n := start grid (base ++ [.ofNat 5, .ofNat 6, .ofNat 7]) 0 {} {}
    (m.after 8).status = .faulted .divisionByZero ∧
      (n.after 7).step = (m.after 7).step.mapState (atop base) ∧
      ∃ lowest lowest' upper, (m.after 8).tower.toList = lowest :: upper ∧
        (n.after 8).tower.toList = lowest' :: upper ∧ lowest'.toList = base ++ lowest.toList := by
  intro grid base m n
  have hstatus : ∀ j < 8, (m.after j).next.status ≠ .faulted .stackUnderflow := by decide +kernel
  have hshort : ∀ j < 8, ∀ required available last,
      (m.after j).step ≠ .error (.stackUnderflow required available) last := by
    intro j hj required available last h
    apply hstatus j hj
    rw [next_of_step_error h, status_of_step_error h]
    rfl
  have hroot : ∀ j < 8, (m.after j).status = .running → (m.after j).quoting = false →
      (m.after j).tower.depth = 1 →
      ∀ cell ∈ (m.after j).cell?, cell.instruction.concernsAll = false := by decide +kernel
  obtain ⟨hsteps, -, lowest, lowest', upper, hm, hn, -, hvalues⟩ :=
    deep_values_unseen grid base _ 0 {} {} 8 hshort hroot
  exact ⟨by decide +kernel, hsteps 7 (by decide), lowest, lowest', upper, hm, hn, hvalues⟩

end Machine

end Fish
