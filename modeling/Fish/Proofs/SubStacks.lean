import Fish.Proofs.Steps

/-!
# Stacks inside stacks

A step opens at most one stack or closes one, so the stacks below the active one change only at
their near end. What lies deeper than the program ever gets is out of its reach: from the opening of
a stack on, as long as the depth does not fall below the one after it, the stacks under the new one
stay what the opening has made of them. The closing puts the values of the new stack back on the one
that they were split off.

Main lemmas:

* `Machine.neighbours_next`    a step opens at most one stack or closes one
* `Machine.suffix_after`       stacks that lie deeper than a run gets stay as they are
* `Machine.step_openStack`     what an opening that succeeds makes of the stacks
* `Machine.step_closeStack`    what a closing makes of them
* `Machine.subStack_isolated`  both together, with any steps between them
-/

namespace Fish

namespace Tower

variable {t u : Tower}

/-- The active stack is the last one of the list. -/
theorem toList_eq (t : Tower) : t.toList = t.below.reverse ++ [t.active] := List.reverse_cons

/-- Without it the list is that of the stacks below. -/
@[simp] theorem dropLast_toList (t : Tower) : t.toList.dropLast = t.below.reverse := by
  rw [toList_eq, List.dropLast_concat]

/-- The lowest stacks of a tower, told by the stacks below the active one. -/
theorem take_toList {base : List Stack} (h : base <:+ t.below) :
    t.toList.take base.length = base.reverse := by
  obtain ⟨upper, hbelow⟩ := h
  rw [toList_eq, ← hbelow, List.reverse_append, List.append_assoc]
  exact List.take_left' (List.length_reverse ..)

/-- The stacks below differ by at most one at their near end. -/
def Neighbours (t u : Tower) : Prop :=
  u.below = t.below ∨ (∃ s, u.below = s :: t.below) ∨ ∃ s, t.below = s :: u.below

/-- Stacks that lie deeper than both towers reach are the same in both. -/
theorem Neighbours.suffix (h : t.Neighbours u) {base : List Stack} (hbase : base <:+ t.below)
    (hdepth : base.length < u.depth) : base <:+ u.below := by
  rcases h with hsame | ⟨s, hopened⟩ | ⟨s, hclosed⟩
  · rwa [hsame]
  · rw [hopened]
    exact hbase.trans (List.suffix_cons ..)
  · -- The stack that was taken off cannot be one of the base.
    have hrest : u.below <:+ t.below := hclosed ▸ List.suffix_cons ..
    exact List.suffix_of_suffix_length_le hbase hrest (Nat.le_of_lt_succ hdepth)

/-- The tower after its active stack is closed. -/
def closed (t : Tower) : Tower :=
  match t.below with
  | [] => { active := {} }
  | parent :: rest => { active := parent.absorb t.active, below := rest }

/-- With a stack below, that one takes the values. -/
theorem closed_of_cons {parent : Stack} {rest : List Stack} (h : t.below = parent :: rest) :
    t.closed = { active := parent.absorb t.active, below := rest } := by
  rw [closed, h]

/-- A closing takes one stack off, and none if there is only one. -/
theorem neighbours_closed (t : Tower) : t.Neighbours t.closed := by
  cases h : t.below with
  | nil => exact .inl (by rw [closed, h])
  | cons parent rest => exact .inr (.inr ⟨parent, by rw [closed_of_cons h, h]⟩)

end Tower

/-- Only the opening and the closing of a stack change the stacks below. -/
theorem Instruction.eq_stack_of_below {i : Instruction} (h : Part.below ∈ i.writes) :
    i = .stack .openStack ∨ i = .stack .closeStack := by
  cases i with
  | stack command =>
    cases command with
    | openStack => exact .inl rfl
    | closeStack => exact .inr rfl
    | _ => simp [writes] at h
  | mirror mirror => cases mirror <;> simp [writes] at h
  | _ => simp [writes] at h

/-- A count that can be served is not above what there is. -/
theorem Stack.countWithin_le {count : Binary64} {available size : Nat}
    (h : countWithin count available = some size) : size ≤ available := by
  -- Only a count that is finite, not below zero and not above what there is can be served by more
  -- than nothing.
  cases count with
  | nan =>
    cases h
    exact Nat.zero_le _
  | infinite negative => cases h
  | finite negative units hrep =>
    simp only [countWithin] at h
    split at h
    · cases h
    · split at h
      · cases h
        assumption
      · cases h

namespace Machine

variable {m n : Machine} {cell : Cell} {status : Status} {parent : Stack} {rest : List Stack}

/-! ## One step -/

/-- To let the pointer go on is left to the move after the cell. -/
theorem state_thenAdvance (act : Action Machine Unit) (m : Machine) :
    (thenAdvance act m).state = (act m).state := by
  rw [thenAdvance_apply]
  cases act m <;> rfl

/-- A closing never fails. -/
theorem closeStack_apply (m : Machine) :
    onTower Tower.closeStack m = .ok () { m with tower := m.tower.closed } := rfl

/-- An opening opens one stack, or none if it fails. -/
theorem neighbours_openStack (m : Machine) :
    m.tower.Neighbours (onTower Tower.openStack m).state.tower := by
  rw [openStack_apply]
  split
  · exact .inl rfl
  · split
    · exact .inl rfl
    · exact .inr (.inl ⟨_, rfl⟩)

/-- A cell opens at most one stack or closes one. -/
theorem neighbours_execute (cell : Cell) (m : Machine) :
    m.tower.Neighbours (execute cell m).state.tower := by
  -- Of all cells only the two brackets touch the stacks below, and only if they are obeyed.
  by_cases hwrites : Part.below ∈ m.writes cell
  · obtain ⟨hobey, hwrites⟩ := obeying_of_mem_writes hwrites nofun
    rw [execute_of_obeying hobey, obey]
    rcases Instruction.eq_stack_of_below hwrites with hi | hi
    · simp only [hi, state_thenAdvance]
      exact neighbours_openStack m
    · simp only [hi, state_thenAdvance, Tower.perform, closeStack_apply]
      exact m.tower.neighbours_closed
  · exact .inl (execute_keeps hwrites)

/-- A move does not change the stacks. -/
@[simp] theorem tower_move (m : Machine) (motion : Motion) : (m.move motion).tower = m.tower := by
  ext1
  · exact move_keeps (p := .active) nofun nofun m motion
  · exact move_keeps (p := .below) nofun nofun m motion

/-- A step opens at most one stack or closes one. -/
theorem neighbours_next (m : Machine) : m.tower.Neighbours m.next.tower := by
  refine next_of_execute (P := fun n => m.tower.Neighbours n.tower) (.inl rfl)
    (fun cell _ => neighbours_execute cell m.counted) (fun n motion hn => ?_) fun n status hn => hn
  rwa [tower_move]

/-- Stacks that lie deeper than a run of steps ever gets stay as they are. -/
theorem suffix_after {base : List Stack} (hbase : base <:+ m.tower.below) {k : Nat}
    (hdepth : ∀ j ≤ k, base.length < (m.after j).tower.depth) :
    base <:+ (m.after k).tower.below := by
  -- By induction on the steps: each moves the far end by one stack at most, and the depth keeps
  -- that away from the base.
  induction k with
  | zero => exact hbase
  | succ k ih =>
    have hk := ih fun j hj => hdepth j (Nat.le_succ_of_le hj)
    have hlast := hdepth (k + 1) (Nat.le_refl _)
    rw [after_succ] at hlast ⊢
    exact (neighbours_next _).suffix hk hlast

/-! ## Opening and closing -/

/-- An opening that succeeds takes the count and splits a run of values off the active stack, which
    keeps the others and its register below the new one. -/
theorem step_openStack (hrun : m.status = .running) (hq : m.quoting = false)
    (hc : m.cell? = some cell) (hi : cell.instruction = .stack .openStack)
    (h : m.step = .ok status n) :
    ∃ count run parent,
      m.stack.toList = parent.toList ++ run ++ [count] ∧
      Stack.countWithin count (parent.toList ++ run).length = some run.length ∧
      parent.register = m.stack.register ∧
      n.tower.active = .ofList run ∧ n.tower.below = parent :: m.tower.below := by
  -- The step has succeeded, so the cell was obeyed and there was a count that can be served.
  obtain ⟨motion, t, hnext, rfl⟩ := executeNext_of_step_ok hrun h
  rw [executeNext_of_obeying hc (.inl hq), obey, hi] at hnext
  have hopen := (thenAdvance_ok hnext).2
  rw [Tower.perform, openStack_apply, stack_counted] at hopen
  split at hopen
  · cases hopen
  · rename_i count values hvalues
    split at hopen
    · cases hopen
    · rename_i size hsize
      cases hopen
      -- The two parts of the values are put together again in three places, as lists from below.
      have hlength : (values.take size).length = size :=
        List.length_take_of_le (Stack.countWithin_le hsize)
      refine ⟨count, (values.take size).reverse, { m.stack with values := values.drop size },
        ?_, ?_, rfl, ?_, by rw [tower_move]; rfl⟩
      · rw [Stack.toList, hvalues, List.reverse_cons, Stack.toList, ← List.reverse_append,
          List.take_append_drop]
      · rw [Stack.toList, ← List.reverse_append, List.take_append_drop, List.length_reverse,
          List.length_reverse, hlength, hsize]
      · rw [tower_move, Stack.ofList, List.reverse_reverse]

/-- A closing with a stack below succeeds, and puts the values of the active stack on that one. -/
theorem step_closeStack (hrun : m.status = .running) (hq : m.quoting = false)
    (hc : m.cell? = some cell) (hi : cell.instruction = .stack .closeStack)
    (hbelow : m.tower.below = parent :: rest) :
    ∃ n, m.step = .ok .running n ∧ n.tower.active = parent.absorb m.stack ∧
      n.tower.below = rest := by
  have hnext := executeNext_of_obeying hc (.inl hq)
  rw [obey, hi] at hnext
  simp only [thenAdvance_apply, Tower.perform, closeStack_apply] at hnext
  -- The cell cannot fail, and the move after it does not concern the stacks.
  have hstep := step_of_ok hrun hnext
  rw [status_move] at hstep
  have htower := Tower.closed_of_cons hbelow
  refine ⟨_, hrun ▸ hstep, ?_, ?_⟩
  · rw [tower_move]
    exact congrArg Tower.active htower
  · rw [tower_move]
    exact congrArg Tower.below htower

/-! ## Isolation and merge -/

/-- An opening that succeeds puts a run of values from below the count on a stack of its own. As
    long as the depth stays above the one before it, the stacks under the new one are, with values
    and registers, what it has left of them. A closing at the depth after it brings the depth back,
    and the stack below gets the values that the new one holds by then on top of its own and keeps
    its register. If the values are those of the run, what lay under the count is restored. -/
theorem subStack_isolated (hrun : m.status = .running) (hq : m.quoting = false)
    (hc : m.cell? = some cell) (hi : cell.instruction = .stack .openStack)
    (hopen : m.step = .ok status n) :
    ∃ count run parent,
      m.stack.toList = parent.toList ++ run ++ [count] ∧
      Stack.countWithin count (parent.toList ++ run).length = some run.length ∧
      parent.register = m.stack.register ∧
      n.tower.toList = m.tower.toList.dropLast ++ [parent, .ofList run] ∧
      ∀ k, (∀ j ≤ k, m.tower.depth + 1 ≤ (n.after j).tower.depth) →
        (n.after k).tower.toList.take m.tower.depth = m.tower.toList.dropLast ++ [parent] ∧
        ∀ closing, (n.after k).tower.depth = m.tower.depth + 1 →
          (n.after k).status = .running → (n.after k).quoting = false →
          (n.after k).cell? = some closing → closing.instruction = .stack .closeStack →
          ∃ p, (n.after k).step = .ok .running p ∧
            p.tower.depth = m.tower.depth ∧
            p.tower.toList = m.tower.toList.dropLast ++ [p.stack] ∧
            p.stack.toList = parent.toList ++ (n.after k).stack.toList ∧
            p.stack.register = m.stack.register ∧
            ((n.after k).stack.toList = run → p.stack.toList ++ [count] = m.stack.toList) := by
  obtain ⟨count, run, parent, hlist, hcount, hregister, hactive, hbelow⟩ :=
    step_openStack hrun hq hc hi hopen
  refine ⟨count, run, parent, hlist, hcount, hregister, ?_, fun k hdepth => ?_⟩
  · -- Right after the opening the two stacks are on top of those that were below.
    rw [Tower.toList_eq, hactive, hbelow, List.reverse_cons, Tower.dropLast_toList,
      List.append_assoc]
    rfl
  -- The parent and the stacks below it are the base that stays out of reach.
  have hbase : parent :: m.tower.below <:+ n.tower.below := hbelow ▸ List.suffix_refl _
  have hkept : parent :: m.tower.below <:+ (n.after k).tower.below := suffix_after hbase hdepth
  refine ⟨?_, fun closing hdeep hrunning hobey hcell hclose => ?_⟩
  · have htake := Tower.take_toList hkept
    rwa [List.reverse_cons, ← Tower.dropLast_toList] at htake
  -- At the depth after the opening the base is all there is below.
  have hall : (n.after k).tower.below = parent :: m.tower.below :=
    (hkept.eq_of_length (Nat.succ.inj hdeep).symm).symm
  obtain ⟨p, hstep, hpactive, hpbelow⟩ := step_closeStack hrunning hobey hcell hclose hall
  -- What is merged goes on top of the values of the parent.
  have hptoList : p.stack.toList = parent.toList ++ (n.after k).stack.toList := by
    rw [stack, hpactive, Stack.toList, Stack.absorb, List.reverse_append]
    rfl
  refine ⟨p, hstep, ?_, ?_, hptoList, ?_, fun hsame => ?_⟩
  · rw [Tower.depth, hpbelow]
    rfl
  · rw [Tower.toList_eq, hpbelow, Tower.dropLast_toList]
    rfl
  · rw [stack, hpactive]
    exact hregister
  · rw [hptoList, hsame, hlist]

/-- A pair of brackets around nothing, with a count of one. -/
theorem subStack_isolated_in_brackets :
    let m := start (.ofRows [[.ofChar '[', .ofChar ']']]) [.ofNat 7, .ofNat 1] 0 {} {}
    m.status = .running ∧ m.quoting = false ∧ m.cell? = some (.ofChar '[') ∧
      m.step = .ok .running m.next ∧
      ∃ p, m.next.step = .ok .running p ∧ p.tower.depth = m.tower.depth := by
  intro m
  have hc : m.cell? = some (.ofChar '[') := by decide
  have hopen : m.step = .ok .running m.next := step_of_next_running (by decide +kernel)
  refine ⟨rfl, rfl, hc, hopen, ?_⟩
  obtain ⟨count, run, parent, -, -, -, -, hafter⟩ := subStack_isolated rfl rfl hc rfl hopen
  obtain ⟨-, hclosing⟩ := hafter 0 (by decide +kernel)
  obtain ⟨p, hp, hdepth, -⟩ := hclosing (.ofChar ']') (by decide +kernel) (by decide +kernel)
    (by decide +kernel) (by decide +kernel) rfl
  exact ⟨p, hp, hdepth⟩

end Machine

end Fish
