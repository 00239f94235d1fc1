import Fish.Proofs.Budgets
import Fish.Proofs.Calls
import Fish.Proofs.SubStacks

/-!
# Storage

What a machine has to keep is the values on its stacks, the registers that are full, the scratch
values, and the stacks themselves. None of these numbers is bounded by the steps alone in a simple
way: an opening takes a value for a stack, a register takes a value off its stack. Their sum is: no
instruction raises it by more than one, whether it succeeds or faults, so a budget of steps is a
bound on the storage too.

`Action.Raises` says of an action by how much it raises a measure at most. For a sequence of actions
the bounds add up, so every instruction is bounded from what it consists of.

Main lemmas:

* `Raises.bind`, `Raises.on`   bounds of a sequence, and of work on a part of the state
* `raises_perform`             a stack command raises what a tower holds by one at most
* `raises_execute`             so does a cell with the storage of the machine
* `storage_next`               and a step, if it counts a cell; otherwise it raises nothing
* `History.storage_le`         storage is bounded by the initial values and the steps
-/

namespace Fish

namespace Action

variable {σ τ α β : Type} {j k : Nat}

/-- The action raises a measure of the state by no more than the given number, also when it
    faults. -/
def Raises (size : σ → Nat) (k : Nat) (act : Action σ α) : Prop :=
  ∀ s, size (act s).state ≤ size s + k

namespace Raises

variable {size : σ → Nat}

/-- A value that is at hand raises nothing. -/
theorem pure (a : α) : Raises size k (Pure.pure a : Action σ α) := fun _ => Nat.le_add_right ..

/-- Nor does a fault by itself. -/
theorem throw (fault : Fault) : Raises size k (throw fault : Action σ α) :=
  fun _ => Nat.le_add_right ..

/-- A change raises a measure by what the changed state has more of it. -/
theorem modify {f : σ → σ} (h : ∀ s, size (f s) ≤ size s + k) :
    Raises size k (modify f : Action σ Unit) := h

/-- A bound may be given away in part. -/
theorem mono {act : Action σ α} (h : Raises size j act) (hjk : j ≤ k) : Raises size k act :=
  fun s => Nat.le_trans (h s) (Nat.add_le_add_left hjk _)

/-- What an action leaves alone it does not raise. -/
theorem of_keeps {act : Action σ α} (h : Keeps size act) : Raises size k act := by
  intro s
  rw [h s]
  exact Nat.le_add_right ..

/-- An action that raises nothing does not matter to the bound of what comes after it. -/
theorem bind {act : Action σ α} {next : α → Action σ β} (hact : Raises size 0 act)
    (hnext : ∀ a, Raises size k (next a)) : Raises size k (act >>= next) := by
  intro s
  have hs := hact s
  -- The state in between is no larger than the first, and from there the second action counts.
  cases h : act s with
  | ok a t =>
    rw [h, EStateM.Result.state_ok] at hs
    rw [bind_of_ok h]
    exact Nat.le_trans (hnext a t) (Nat.add_le_add_right hs k)
  | error fault t =>
    rw [h, EStateM.Result.state_error] at hs
    rw [bind_of_error h, EStateM.Result.state_error]
    omega

/-- A look at the state raises nothing. -/
theorem get_bind {next : σ → Action σ β} (h : ∀ s, Raises size k (next s)) :
    Raises size k (get >>= next) := fun s => h s s

/-- Work on a part of the state raises the measure of the whole as it raises that of the part. -/
theorem on {get : σ → τ} {set : τ → σ → σ} {part : τ → Nat} {act : Action τ α}
    (h : ∀ s t, size (set t s) + part (get s) = size s + part t) (hact : Raises part k act) :
    Raises size k (Action.on get set act) := by
  -- Both sides of the equation about the part change by the same, so the bound carries over.
  intro s
  have hpart := hact (get s)
  simp only [Action.on]
  cases hs : act (get s) with
  | ok a t =>
    rw [hs, EStateM.Result.state_ok] at hpart
    have hset := h s t
    rw [EStateM.Result.state_ok]
    omega
  | error fault t =>
    rw [hs, EStateM.Result.state_error] at hpart
    have hset := h s t
    rw [EStateM.Result.state_error]
    omega

end Raises

end Action

open Fish.Action (Raises)

/-! ## Stacks -/

namespace Stack

/-- The number of values in the register, which is one or none. -/
def registered (s : Stack) : Nat := if s.register.isSome then 1 else 0

/-- What a stack takes: its values, its register if it is full, and itself. -/
def storage (s : Stack) : Nat := s.size + s.registered + 1

/-- The register of a stack is apart from its values. -/
@[simp] theorem registered_withValues (s : Stack) (values : List Binary64) :
    ({ s with values } : Stack).registered = s.registered := rfl

/-- A pop takes a value away, if there is one. -/
theorem raises_pop : Raises storage 0 pop := by
  intro s
  rw [pop]
  cases hs : s.values <;> simp [storage, size, hs]

/-- So does a removal. -/
theorem raises_remove : Raises storage 0 (discard pop) := by
  intro s
  rw [Machine.discard_pop_apply]
  cases hs : s.values <;> simp [storage, size, hs]

/-- A push adds a value. -/
theorem raises_push (value : Binary64) : Raises storage 1 (push value) :=
  .modify fun s => by simp [storage, size]; omega

/-- A duplication adds one, if there is a value to copy. -/
theorem raises_duplicate : Raises storage 1 duplicate := by
  intro s
  rw [duplicate]
  cases hs : s.values <;> simp [storage, size, hs]
  omega

/-- A swap only changes the order of values. -/
theorem raises_swap : Raises storage 0 swap := by
  intro s
  rw [swap]
  split <;> simp [storage, size, *]

/-- So does a shift of the three topmost values. -/
theorem raises_topShift : Raises storage 0 topShift := by
  intro s
  rw [topShift]
  split <;> simp [storage, size, *]

/-- So does a shift to the right. -/
theorem raises_shiftRight : Raises storage 0 shiftRight := by
  intro s
  rw [shiftRight]
  split <;> simp [storage, size, *]

/-- So does a shift to the left. -/
theorem raises_shiftLeft : Raises storage 0 shiftLeft := by
  intro s
  rw [shiftLeft]
  split
  · exact Nat.le_refl _
  · rename_i value hlast
    -- There is a value at the bottom, so without it there is one less.
    have hpos : 0 < s.values.length := List.length_pos_of_mem (List.mem_of_getLast? hlast)
    simp [storage, size]
    omega

/-- A toggle only moves a value between the stack and the register. -/
theorem raises_toggleRegister : Raises storage 0 toggleRegister := by
  intro s
  rw [toggleRegister]
  split <;> simp [storage, size, registered, *]

/-- An operator takes two values for one, or takes what there is and faults. -/
theorem raises_operate (op : Operator) : Raises storage 0 (operate op) := by
  intro s
  rw [operate]
  -- Two values become one, or at most two are taken by a fault.
  split
  · split <;> simp [storage, size, *]
    omega
  · simp [storage, size, *]

end Stack

/-! ## Towers -/

/-- What stacks take together: all their values, the registers that are full, and the stacks. -/
def Stack.storageOf (ss : List Stack) : Nat :=
  (ss.flatMap Stack.values).length + ss.countP (·.register.isSome) + ss.length

/-- What stacks take together is the sum of what each of them takes. -/
theorem Stack.storageOf_cons (s : Stack) (ss : List Stack) :
    storageOf (s :: ss) = s.storage + storageOf ss := by
  simp only [storageOf, storage, size, registered, List.flatMap_cons, List.length_append,
    List.countP_cons, List.length_cons]
  omega

/-- What stacks take does not depend on their order. -/
theorem Stack.storageOf_reverse (ss : List Stack) : storageOf ss.reverse = storageOf ss := by
  simp [storageOf, List.length_flatMap]

namespace Tower

/-- What all stacks of a tower take. -/
def storage (t : Tower) : Nat := Stack.storageOf t.toList

/-- What a tower takes is what its active stack takes and what the others do. -/
theorem storage_eq (t : Tower) : t.storage = t.active.storage + Stack.storageOf t.below := by
  rw [storage, toList, Stack.storageOf_reverse, Stack.storageOf_cons]

/-- Work on the active stack raises what the tower takes as it raises what the stack takes. -/
theorem raises_onActive {α : Type} {act : Action Stack α} {k : Nat}
    (h : Raises Stack.storage k act) : Raises storage k (onActive act) :=
  .on (fun t s => by simp only [storage_eq]; omega) h

/-- An opening gives the count for a new stack, and moves values. -/
theorem raises_openStack : Raises storage 0 openStack := by
  intro t
  rw [openStack, Action.bind_apply]
  simp only [onActive, Action.on, Stack.splitOff]
  cases hs : t.active.values with
  | nil => exact Nat.le_refl _
  | cons count rest =>
    simp only
    cases hk : Stack.countWithin count rest.length with
    | none =>
      simp [storage_eq, Stack.storage, Stack.size, hs]
    | some k =>
      -- The values are divided between two stacks, and the count has made room for the second.
      have hle := Stack.countWithin_le hk
      let child : Stack := { values := rest.take k }
      show storage ⟨child, { t.active with values := rest.drop k } :: t.below⟩ ≤ _
      simp [child, storage_eq, Stack.storageOf_cons, Stack.storage, Stack.size, Stack.registered,
        hs]
      omega

/-- A closing moves values, and drops a stack with its register. -/
theorem raises_closeStack : Raises storage 0 closeStack := by
  refine .modify fun t => ?_
  cases ht : t.below with
  | nil => simp [storage_eq, Stack.storage, Stack.size, Stack.registered, ht]
  | cons parent rest =>
    -- The stack itself is gone, and its register if that was full.
    simp [storage_eq, Stack.storageOf_cons, Stack.storage, Stack.size, Stack.absorb, ht]
    omega

/-- A command raises the storage by the value that it pushes, if it pushes one. -/
theorem raises_perform (command : StackCommand) : Raises storage 1 (perform command) := by
  cases command with
  | duplicate => exact raises_onActive Stack.raises_duplicate
  | length => exact raises_onActive (.modify fun s => by simp [Stack.storage, Stack.size]; omega)
  | remove => exact (raises_onActive Stack.raises_remove).mono (Nat.zero_le 1)
  | swap => exact (raises_onActive Stack.raises_swap).mono (Nat.zero_le 1)
  | topShift => exact (raises_onActive Stack.raises_topShift).mono (Nat.zero_le 1)
  | shiftRight => exact (raises_onActive Stack.raises_shiftRight).mono (Nat.zero_le 1)
  | shiftLeft => exact (raises_onActive Stack.raises_shiftLeft).mono (Nat.zero_le 1)
  | reverse => exact raises_onActive (.modify fun s => by simp [Stack.storage, Stack.size])
  | openStack => exact raises_openStack.mono (Nat.zero_le 1)
  | closeStack => exact raises_closeStack.mono (Nat.zero_le 1)
  | register => exact (raises_onActive Stack.raises_toggleRegister).mono (Nat.zero_le 1)

/-- An operator works on the active stack. -/
theorem raises_operate (op : Operator) : Raises storage 0 (operate op) :=
  raises_onActive (Stack.raises_operate op)

end Tower

namespace Machine

variable {m : Machine} {cell : Cell} {k : Nat}

/-! ## Instructions -/

/-- What a machine keeps besides its program, input and output: the values on all stacks, the
    registers that are full, the scratch values, and the stacks themselves. -/
def storage (m : Machine) : Nat :=
  (m.tower.toList.flatMap Stack.values).length + m.tower.toList.countP (·.register.isSome) +
    m.scratch.size + m.tower.depth

/-- What a machine keeps is what its tower takes and the scratch values. -/
theorem storage_eq (m : Machine) : m.storage = m.tower.storage + m.scratch.size := by
  have hdepth : m.tower.toList.length = m.tower.depth := by simp [Tower.toList, Tower.depth]
  rw [storage, Tower.storage, Stack.storageOf, hdepth]
  omega

/-- Work on the tower raises what the machine keeps as it raises what the tower takes. -/
theorem raises_onTower {α : Type} {act : Action Tower α} (h : Raises Tower.storage k act) :
    Raises storage k (onTower act) :=
  .on (fun m t => by simp only [storage_eq]; omega) h

/-- So does work on the active stack. -/
theorem raises_onStack {α : Type} {act : Action Stack α} (h : Raises Stack.storage k act) :
    Raises storage k (onStack act) :=
  raises_onTower (Tower.raises_onActive h)

/-- A pop of the machine is one of its active stack. -/
theorem raises_pop : Raises storage 0 pop := raises_onStack Stack.raises_pop

/-- So is a push. -/
theorem raises_push (value : Binary64) : Raises storage 1 (push value) :=
  raises_onStack (Stack.raises_push value)

/-- A point is two pops. -/
theorem raises_popPoint : Raises storage 0 popPoint :=
  raises_pop.bind fun _ => raises_pop.bind fun _ => .pure _

/-- To let the pointer go on adds nothing. -/
theorem raises_thenAdvance {act : Action Machine Unit} (h : Raises storage k act) :
    Raises storage k (thenAdvance act) := by
  intro m
  rw [state_thenAdvance]
  exact h m

/-- A change that concerns neither the stacks nor the scratch values raises nothing. -/
theorem raises_modify {f : Machine → Machine}
    (h : ∀ m, (f m).tower = m.tower ∧ (f m).scratch = m.scratch) :
    Raises storage k (modify f : Action Machine Unit) := by
  refine .modify fun m => ?_
  rw [storage, storage, (h m).1, (h m).2]
  exact Nat.le_add_right ..

/-- What is done to the input does not concern the storage. -/
theorem raises_onInput {α : Type} (act : Action Input α) : Raises storage k (onInput act) :=
  .of_keeps (.on (fun _ _ => by rfl) act)

/-- Nor does what is done to the output. -/
theorem raises_onOutput {α : Type} (act : Action Output α) : Raises storage k (onOutput act) :=
  .of_keeps (.on (fun _ _ => by rfl) act)

/-- An instruction raises the storage by the value that it pushes or puts at a point, if it does. -/
theorem raises_obey (cell : Cell) : Raises storage 1 (obey cell) := by
  rw [obey]
  -- Each instruction is a sequence in which at most one action adds something.
  cases cell.instruction with
  | turn | mirror | skip | quote =>
    exact raises_thenAdvance (raises_modify fun _ => ⟨rfl, rfl⟩)
  | skipIfZero =>
    refine raises_thenAdvance (raises_pop.bind fun value => ?_)
    split
    · exact raises_modify fun _ => ⟨rfl, rfl⟩
    · exact .pure _
  | jump =>
    refine raises_popPoint.bind fun target => .bind (raises_modify fun _ => ?_) fun _ => .pure _
    exact ⟨rfl, rfl⟩
  | digit value => exact raises_thenAdvance (raises_push _)
  | operator op =>
    exact raises_thenAdvance (raises_onTower ((Tower.raises_operate op).mono (Nat.zero_le 1)))
  | stack command => exact raises_thenAdvance (raises_onTower (Tower.raises_perform command))
  | writeChar | writeNumber =>
    exact raises_thenAdvance (raises_pop.bind fun value => raises_onOutput _)
  | readNumber =>
    exact raises_thenAdvance ((raises_onInput _).bind fun value => raises_push value)
  | peek =>
    exact raises_thenAdvance (raises_popPoint.bind fun p => .get_bind fun m => raises_push _)
  | poke =>
    -- The value is the only thing that a poke adds, in place of another one if there was one there.
    refine raises_thenAdvance (raises_popPoint.bind fun p => raises_pop.bind fun value => ?_)
    refine .modify fun m => ?_
    have hsize := m.scratch.size_insert_le p value
    simp only [storage]
    omega
  | halt =>
    have hhalt : Raises storage 0 halt :=
      .bind (raises_modify fun _ => ⟨rfl, rfl⟩) fun _ => raises_onOutput _
    exact hhalt.bind fun _ => .pure _
  | blank => exact .pure _
  | endOfLine | endOfInput => exact .throw _

/-- A cell raises the storage by no more than one, in and outside a literal run. -/
theorem raises_execute (cell : Cell) : Raises storage 1 (execute cell) := by
  refine .get_bind fun m => ?_
  split
  · exact raises_thenAdvance (raises_push _)
  · exact raises_obey cell

/-! ## Steps -/

/-- Nor does a move of the pointer. -/
@[simp] theorem storage_move (m : Machine) (motion : Motion) :
    (m.move motion).storage = m.storage := by
  have hscratch : (m.move motion).scratch = m.scratch :=
    move_keeps (p := .scratch) nofun nofun m motion
  rw [storage, storage, tower_move, hscratch]

/-- A step raises the storage by no more than the count of executed cells. -/
theorem storage_next (m : Machine) : m.next.storage + m.steps ≤ m.storage + m.next.steps := by
  by_cases hrun : m.status = .running
  · cases hc : m.cell? with
    | none =>
      -- Only the status changes, and nothing is counted.
      obtain ⟨status, -, hnext⟩ := next_of_no_cell hrun hc
      rw [hnext]
      exact Nat.le_refl _
    | some cell =>
      -- The cell counts as one, and raises the storage by no more than that.
      have hcell : (execute cell m.counted).state.storage ≤ m.storage + 1 :=
        raises_execute cell m.counted
      have hnext : m.next.storage ≤ m.storage + 1 :=
        next_of_cell (P := fun n => n.storage ≤ m.storage + 1) hrun hc hcell
          (fun n motion hn => (storage_move n motion).symm ▸ hn) fun n status hn => hn
      rw [steps_next hrun hc]
      omega
  · simp [next_of_not_running hrun]

/-- So does a number of steps. -/
theorem storage_after (m : Machine) (k : Nat) :
    (m.after k).storage + m.steps ≤ m.storage + (m.after k).steps := by
  -- By induction on the steps: storage and count grow together.
  refine after_induction (P := fun n => n.storage + m.steps ≤ m.storage + n.steps) ?_
    (Nat.le_refl _) k
  intro n hn
  have hnext := n.storage_next
  omega

/-- A budget bounds what the storage grows by. -/
theorem storage_after_le (m : Machine) (budget : Nat) :
    (m.after budget).storage ≤ m.storage + budget := by
  have hstorage := m.storage_after budget
  obtain ⟨-, hsteps, -⟩ := steps_after_le m budget
  omega

/-- A machine starts with its initial values and one stack. -/
theorem storage_start (grid : Grid) (values : List Binary64) (seed : UInt64) (input : Input)
    (output : Output) : (start grid values seed input output).storage = values.length + 1 := by
  simp [storage, start, Tower.ofStack, Tower.toList, Tower.depth, Stack.ofList, Scratch.size]

/-- Whatever calls are made on a machine from its start on, it never has to keep more than the
    initial values, the one stack and one more for each cell executed. A single step raises what
    it keeps by no more than one, and a run by no more than its budget. -/
theorem History.storage_le {grid : Grid} {values : List Binary64} {seed : UInt64} {input : Input}
    {output : Output} {es : List Exchange}
    (h : History (start grid values seed input output) es m) :
    m.storage ≤ values.length + 1 + m.steps ∧ m.next.storage ≤ m.storage + 1 ∧
      ∀ budget, (m.runFor budget).state.storage ≤ m.storage + budget := by
  -- The machine of a history is one after a number of steps from the start, where one stack and the
  -- values are all that it keeps.
  refine ⟨?_, storage_after_le m 1, fun budget => ?_⟩
  · obtain ⟨k, rfl⟩ := h.exists_after
    have hafter := (start grid values seed input output).storage_after k
    rw [storage_start] at hafter
    exact Nat.le_of_add_right_le hafter
  · rw [state_runFor]
    exact storage_after_le m budget

/-- A program that fills its register and opens a stack with the value that is left. -/
theorem storage_le_of_full_register :
    let s := start (.parse "5:&1[") [] 0 {} {}
    (s.after 5).storage = 4 ∧ (s.after 5).storage ≤ 0 + 1 + (s.after 5).steps ∧
      (s.after 6).storage ≤ (s.after 5).storage + 1 := by
  intro s
  have hstorage : (s.after 5).storage = 4 := by decide +kernel
  obtain ⟨es, hhistory⟩ := history_steps s 5
  obtain ⟨hle, hnext, -⟩ := hhistory.storage_le
  rw [← after_succ] at hnext
  exact ⟨hstorage, hle, hnext⟩

end Machine

end Fish
