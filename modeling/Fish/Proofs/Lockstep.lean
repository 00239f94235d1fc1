import Fish.Proofs.Steps

/-!
# Two machines side by side

What a cell does is determined by a few parts of the machine: `Instruction.touches` lists the parts
that an instruction looks at or changes. Let two machines be related in any way. If a part is the
same in both, and they stay related when it is changed in both alike, then the relation shares the
part (`Shares`); and if it shares all parts that an instruction touches, then the instruction has
like results on both machines. The relation need not share the stacks for this, as long as pops and
pushes, and the work on the tower that an operator or a stack command stands for, have like results.

From the cells this passes to steps, if the machines are at like cells and paces keep them related,
and from steps to runs.

Main lemmas:

* `obey_alike`, `execute_alike`   a cell has like results on related machines
* `obey_respects`                 an instruction of which the relation shares all that it touches
* `step_alike`                    a step has like results if its cell has
* `related_after`                 machines whose steps are alike stay related
-/

namespace Fish

/-- The machine with another content of a part. -/
abbrev Part.put : (p : Part) → p.Content → Machine → Machine
  | grid, c, m => { m with grid := c }
  | position, c, m => { m with pointer := { m.pointer with position := c } }
  | heading, c, m => { m with pointer := { m.pointer with heading := c } }
  | active, c, m => { m with tower := { m.tower with active := c } }
  | below, c, m => { m with tower := { m.tower with below := c } }
  | quoting, c, m => { m with quoting := c }
  | leaping, c, m => { m with leaping := c }
  | status, c, m => { m with status := c }
  | scratch, c, m => { m with scratch := c }
  | generator, c, m => { m with generator := c }
  | input, c, m => { m with input := c }
  | output, c, m => { m with output := c }
  | steps, c, m => { m with steps := c }

namespace Part

variable {p q : Part}

/-- A part is what it was made. -/
theorem view_put_self (p : Part) (c : p.Content) (m : Machine) : p.view (p.put c m) = c := by
  cases p <;> rfl

/-- The other parts stay as they are. -/
theorem view_put_of_ne (h : q ≠ p) (c : p.Content) (m : Machine) :
    q.view (p.put c m) = q.view m := by
  cases p <;> cases q <;> first | rfl | contradiction

end Part

namespace Instruction

/-- The parts that an instruction looks at or changes. Few look at more than they change: a target
    is folded into the grid, what is seen at a point is a value or a cell there, and the output is
    flushed at the end. -/
def touches : Instruction → List Part
  | jump => [.active, .position, .grid]
  | peek => [.active, .scratch, .grid]
  | halt => [.status, .output]
  | i => i.writes

/-- The work on the tower that an operator or a stack command stands for. -/
def towerWork? : Instruction → Option (Action Tower Unit)
  | operator op => some (Tower.operate op)
  | stack command => some (Tower.perform command)
  | _ => none

/-- Only the opening and the closing of a stack work on more than the active one. -/
theorem exists_onActive {i : Instruction} {act : Action Tower Unit} (h : i.towerWork? = some act)
    (hb : Part.below ∉ i.touches) : ∃ work, act = Tower.onActive work := by
  cases i with
  | operator op =>
    cases h
    exact ⟨_, rfl⟩
  | stack command =>
    cases h
    cases command with
    | openStack | closeStack => simp [touches, writes] at hb
    | _ => exact ⟨_, rfl⟩
  | _ => cases h

/-- Both kinds of work concern the active stack. -/
theorem active_mem_touches {i : Instruction} {act : Action Tower Unit}
    (h : i.towerWork? = some act) : Part.active ∈ i.touches := by
  cases i with
  | operator op => exact .head _
  | stack command => cases command <;> exact .head _
  | _ => cases h

end Instruction

namespace Machine

open Fish.Action (Respects)

/-- A relation of machines shares a part: the part is the same in machines that are related, and
    they stay related if it is changed in both alike. -/
structure Shares (R : Machine → Machine → Prop) (p : Part) : Prop where
  same {m n : Machine} : R m n → p.view m = p.view n
  put {m n : Machine} (c : p.Content) : R m n → R (p.put c m) (p.put c n)

/-- Values are popped and pushed alike in related machines. -/
structure RespectsValues (R : Machine → Machine → Prop) (exempt : Fault → Prop) : Prop where
  pop : Respects R exempt pop
  push (value : Binary64) : Respects R exempt (push value)

variable {R : Machine → Machine → Prop} {exempt : Fault → Prop} {m n : Machine} {cell : Cell}

/-! ## Actions on parts that are shared -/

/-- Work on the tower, if all its stacks are shared. -/
theorem respects_onTower {α : Type} (ha : Shares R .active) (hb : Shares R .below)
    (act : Action Tower α) : Respects R exempt (onTower act) := by
  -- A tower is its active stack and those below it, and both are put back one after the other.
  apply Respects.on
  · intro m n h
    exact Tower.ext (ha.same h) (hb.same h)
  · intro m n t h
    exact hb.put t.below (ha.put t.active h)

/-- Work on the active stack is work on that part of the machine. -/
theorem onStack_eq {α : Type} (act : Action Stack α) :
    onStack act = Action.on (Part.view .active) (Part.put .active) act := by
  funext m
  simp only [onStack, onTower, Tower.onActive, Action.on]
  cases act m.tower.active <;> rfl

/-- Work on the active stack, if that is shared. -/
theorem respects_onStack {α : Type} (ha : Shares R .active) (act : Action Stack α) :
    Respects R exempt (onStack act) := by
  rw [onStack_eq]
  apply Respects.on
  · intro m n h
    exact ha.same h
  · intro m n s h
    exact ha.put s h

/-- Work on the input, if that is shared. -/
theorem respects_onInput {α : Type} (hi : Shares R .input) (act : Action Input α) :
    Respects R exempt (onInput act) := by
  apply Respects.on
  · intro m n h
    exact hi.same h
  · intro m n input h
    exact hi.put input h

/-- Work on the output, if that is shared. -/
theorem respects_onOutput {α : Type} (ho : Shares R .output) (act : Action Output α) :
    Respects R exempt (onOutput act) := by
  apply Respects.on
  · intro m n h
    exact ho.same h
  · intro m n out h
    exact ho.put out h

/-- A halt concerns the status, and flushes the output. -/
theorem respects_halt (hs : Shares R .status) (ho : Shares R .output) : Respects R exempt halt :=
  .bind (.modify fun _ _ h => hs.put .halted h) fun _ => respects_onOutput ho _

/-- After results that are alike both pointers go on. -/
theorem alike_thenAdvance {act : Action Machine Unit} (h : (act m).Alike R exempt (act n)) :
    (thenAdvance act m).Alike R exempt (thenAdvance act n) :=
  Action.alike_bind h fun _ => .pure _

/-- An action may let the pointer go on. -/
theorem respects_thenAdvance {act : Action Machine Unit} (h : Respects R exempt act) :
    Respects R exempt (thenAdvance act) :=
  h.bind fun _ => .pure _

/-- Values are handled alike if the active stack is shared. -/
theorem Shares.respectsValues (ha : Shares R .active) : RespectsValues R exempt where
  pop := respects_onStack ha _
  push _ := respects_onStack ha _

/-- A point is two values. -/
theorem RespectsValues.popPoint (h : RespectsValues R exempt) : Respects R exempt popPoint :=
  h.pop.bind fun _ => h.pop.bind fun _ => .pure _

/-! ## Instructions -/

/-- The random mirror takes the heading from the generator, every other one from the heading before.
    -/
theorem respects_mirror {mirror : Mirror}
    (hshares : ∀ p ∈ (Instruction.mirror mirror).touches, Shares R p) :
    Respects R exempt (modify fun m => m.passMirror mirror) := by
  have hheading : Shares R .heading := hshares .heading (by cases mirror <;> exact .head _)
  apply Respects.modify
  intro m n h
  simp only [passMirror]
  -- Which of the two parts is looked at is the only difference between the mirrors.
  cases mirror with
  | random =>
    have hgenerator := hshares .generator (.tail _ (.head _))
    have hsame : m.generator = n.generator := hgenerator.same h
    rw [hsame]
    exact hgenerator.put n.generator.draw.2 (hheading.put n.generator.draw.1 h)
  | _ =>
    have hsame : m.pointer.heading = n.pointer.heading := hheading.same h
    simp only [Pointer.passMirror, Pointer.reflect, hsame]
    exact hheading.put _ h

/-- A quote turns literal runs on or off in both machines. -/
theorem respects_quote (hquoting : Shares R .quoting) :
    Respects R exempt (modify fun m => { m with quoting := !m.quoting }) := by
  apply Respects.modify
  intro m n h
  have hsame : m.quoting = n.quoting := hquoting.same h
  rw [hsame]
  exact hquoting.put _ h

/-- The value decides in both machines whether the next move passes over a cell. -/
theorem RespectsValues.skipIfZero (hv : RespectsValues R exempt) (hleaping : Shares R .leaping) :
    Respects R exempt skipIfZero := by
  apply hv.pop.bind
  intro value
  split
  · exact .modify fun _ _ h => hleaping.put true h
  · exact .pure _

/-- Both pointers go to the same cell if the grids have the same size. -/
theorem RespectsValues.jump (hv : RespectsValues R exempt) (hposition : Shares R .position)
    (hgrid : Shares R .grid) : Respects R exempt jump := by
  apply hv.popPoint.bind
  intro target
  apply Respects.bind _ fun _ => .pure _
  apply Respects.modify
  intro m n h
  have hbounds : m.grid.bounds = n.grid.bounds := congrArg Grid.bounds (hgrid.same h)
  rw [hbounds]
  -- On a grid without cells the pointer stays.
  unfold Pointer.jump
  split
  · exact h
  · exact hposition.put _ h

/-- The value is written in the same way, and accepted or refused by the same output. -/
theorem RespectsValues.popAndWrite (hv : RespectsValues R exempt) (houtput : Shares R .output)
    (text : Binary64 → String) :
    Respects R exempt (Machine.pop >>= fun value => onOutput (Output.write (text value))) :=
  hv.pop.bind fun _ => respects_onOutput houtput _

/-- The number is read from the same input. -/
theorem RespectsValues.readNumber (hv : RespectsValues R exempt) (hinput : Shares R .input) :
    Respects R exempt readNumber :=
  (respects_onInput hinput _).bind hv.push

/-- The same is seen at the point. -/
theorem RespectsValues.peek (hv : RespectsValues R exempt) (hscratch : Shares R .scratch)
    (hgrid : Shares R .grid) : Respects R exempt peek := by
  apply hv.popPoint.bind
  intro target
  apply Respects.get_bind
  · -- What is seen at a point depends on the scratch values and the grid.
    intro m n h
    have hscratch : m.scratch = n.scratch := hscratch.same h
    have hgrid : m.grid = n.grid := hgrid.same h
    simp only [look, hscratch, hgrid]
  · intro m
    exact hv.push _

/-- The value is put at the same point. -/
theorem RespectsValues.poke (hv : RespectsValues R exempt) (hscratch : Shares R .scratch) :
    Respects R exempt poke := by
  apply hv.popPoint.bind
  intro target
  apply hv.pop.bind
  intro value
  apply Respects.modify
  intro m n h
  have hsame : m.scratch = n.scratch := hscratch.same h
  rw [hsame]
  exact hscratch.put _ h

/-- An instruction has like results on related machines if the relation shares what it touches, the
    stacks aside, and what it does with the stacks has like results. -/
theorem obey_alike (h : R m n)
    (hshares : ∀ p ∈ cell.instruction.touches, p ∉ [Part.active, .below] → Shares R p)
    (hvalues : Part.active ∈ cell.instruction.touches → RespectsValues R exempt)
    (hwork : ∀ act, cell.instruction.towerWork? = some act →
      (onTower act m).Alike R exempt (onTower act n)) :
    (obey cell m).Alike R exempt (obey cell n) := by
  -- One case for each instruction: the parts that it touches are listed, and from the list come the
  -- shares that its lemma asks for.
  rw [obey]
  cases hi : cell.instruction with
  -- The work on the tower is an assumption, since the relation need not share the stacks.
  | operator op => exact alike_thenAdvance (hwork _ (by rw [hi]; rfl))
  | stack command => exact alike_thenAdvance (hwork _ (by rw [hi]; rfl))
  -- Instructions that leave the stacks alone.
  | turn heading =>
    rw [hi] at hshares
    have hheading := hshares .heading (.head _) (by decide)
    exact respects_thenAdvance (.modify fun _ _ h => hheading.put heading h) _ _ h
  | mirror mirror =>
    rw [hi] at hshares
    apply respects_thenAdvance (respects_mirror fun p hp => hshares p hp ?_) _ _ h
    cases mirror <;> cases p <;> simp [Instruction.touches, Instruction.writes] at hp ⊢
  | skip =>
    rw [hi] at hshares
    have hleaping := hshares .leaping (.head _) (by decide)
    exact respects_thenAdvance (.modify fun _ _ h => hleaping.put true h) _ _ h
  | quote =>
    rw [hi] at hshares
    have hquoting := hshares .quoting (.head _) (by decide)
    exact respects_thenAdvance (respects_quote hquoting) _ _ h
  | halt =>
    rw [hi] at hshares
    have hstatus := hshares .status (.head _) (by decide)
    have houtput := hshares .output (.tail _ (.head _)) (by decide)
    exact (respects_halt hstatus houtput).bind (fun _ => .pure _) _ _ h
  | blank => exact .ok h
  | endOfLine | endOfInput => exact .error h
  -- Instructions that pop or push values, and do the rest with parts that are shared.
  | digit value =>
    rw [hi] at hvalues
    exact respects_thenAdvance ((hvalues (.head _)).push _) _ _ h
  | skipIfZero =>
    rw [hi] at hshares hvalues
    have hleaping := hshares .leaping (.tail _ (.head _)) (by decide)
    exact respects_thenAdvance ((hvalues (.head _)).skipIfZero hleaping) _ _ h
  | jump =>
    rw [hi] at hshares hvalues
    have hposition := hshares .position (.tail _ (.head _)) (by decide)
    have hgrid := hshares .grid (.tail _ (.tail _ (.head _))) (by decide)
    exact (hvalues (.head _)).jump hposition hgrid _ _ h
  | writeChar | writeNumber =>
    rw [hi] at hshares hvalues
    have houtput := hshares .output (.tail _ (.head _)) (by decide)
    exact respects_thenAdvance ((hvalues (.head _)).popAndWrite houtput _) _ _ h
  | readNumber =>
    rw [hi] at hshares hvalues
    have hinput := hshares .input (.tail _ (.head _)) (by decide)
    exact respects_thenAdvance ((hvalues (.head _)).readNumber hinput) _ _ h
  | peek =>
    rw [hi] at hshares hvalues
    have hscratch := hshares .scratch (.tail _ (.head _)) (by decide)
    have hgrid := hshares .grid (.tail _ (.tail _ (.head _))) (by decide)
    exact respects_thenAdvance ((hvalues (.head _)).peek hscratch hgrid) _ _ h
  | poke =>
    rw [hi] at hshares hvalues
    have hscratch := hshares .scratch (.tail _ (.head _)) (by decide)
    exact respects_thenAdvance ((hvalues (.head _)).poke hscratch) _ _ h

/-- An instruction of which the relation shares all that it touches. -/
theorem obey_respects (hshares : ∀ p ∈ cell.instruction.touches, Shares R p) :
    Respects R exempt (obey cell) := by
  intro m n h
  apply obey_alike h fun p hp _ => hshares p hp
  · intro ha
    exact (hshares .active ha).respectsValues
  · intro act hact
    have ha : Shares R .active := hshares .active (Instruction.active_mem_touches hact)
    -- If the stacks below are touched, then they are shared too, and otherwise the work is that of
    -- the active stack.
    by_cases hb : Part.below ∈ cell.instruction.touches
    · exact respects_onTower ha (hshares .below hb) act m n h
    · obtain ⟨work, rfl⟩ := Instruction.exists_onActive hact hb
      exact respects_onStack ha work m n h

/-! ## Cells -/

/-- Between quotes a cell has like results if values are pushed alike, and otherwise if its
    instruction has. -/
theorem execute_alike (h : R m n) (hquoting : m.quoting = n.quoting)
    (hpush : m.quoting = true → cell.instruction ≠ .quote → RespectsValues R exempt)
    (hobey : m.quoting = false ∨ cell.instruction = .quote →
      (obey cell m).Alike R exempt (obey cell n)) :
    (execute cell m).Alike R exempt (execute cell n) := by
  -- Literal runs are shared, so both machines push the character or both obey.
  rcases obeying_or_quoting m cell with hm | ⟨hq, hc⟩
  · rw [execute_of_obeying hm, execute_of_obeying (by rwa [← hquoting])]
    exact hobey hm
  · have hv := hpush hq hc
    rw [execute_of_quoting hq hc, execute_of_quoting (by rwa [← hquoting]) hc]
    exact respects_thenAdvance (hv.push (.ofNat cell.glyph.toNat)) m n h

/-! ## Steps -/

/-- Machines that are related travel alike: they are at like cells, stay related when both take a
    pace, and have in common what tells how execution goes on. -/
structure Travels (R : Machine → Machine → Prop) : Prop where
  cell {m n : Machine} : R m n → m.cell? = n.cell?
  pace {m n : Machine} : R m n → R m.pace n.pace
  shares : ∀ p ∈ [Part.quoting, .leaping, .status, .output, .steps], Shares R p

/-- Machines that stay related when both take a pace, and that are leaping both or neither, stay
    related when both move on. -/
theorem related_move (hleaping : Shares R .leaping) (hpace : ∀ m n, R m n → R m.pace n.pace)
    (h : R m n) (motion : Motion) : R (m.move motion) (n.move motion) := by
  cases motion with
  | stay => exact h
  | advance =>
    have hsame : m.leaping = n.leaping := hleaping.same h
    -- Both take a second pace, or neither does.
    simp only [move, hsame]
    split
    · exact hpace _ _ (hleaping.put false (hpace _ _ h))
    · exact hpace _ _ h

/-- A cell is counted in both machines. -/
theorem related_counted (hsteps : Shares R .steps) (h : R m n) : R m.counted n.counted := by
  have hsame : m.steps = n.steps := hsteps.same h
  rw [counted, counted, hsame]
  exact hsteps.put (n.steps + 1) h

/-- What comes first in a step: a cell, or the halt on a grid without cells. -/
theorem executeNext_alike (hR : Travels R) (h : R m n)
    (hcell : ∀ cell, m.cell? = some cell →
      (execute cell m.counted).Alike R exempt (execute cell n.counted)) :
    (executeNext m).Alike R exempt (executeNext n) := by
  cases hc : m.cell? with
  | some cell =>
    rw [executeNext_of_cell hc, executeNext_of_cell (by rwa [← hR.cell h])]
    exact hcell cell hc
  -- Neither machine finds a cell, so both halt.
  | none =>
    have hhalt : Respects R exempt halt :=
      respects_halt (hR.shares .status (by simp)) (hR.shares .output (by simp))
    simp only [executeNext, Action.get_bind_apply, ← hR.cell h, hc]
    exact hhalt.bind (fun _ => .pure _) _ _ h

/-- A step has like results on related machines if the cell that it executes has. -/
theorem step_alike (hR : Travels R) (h : R m n)
    (hcell : m.status = .running → ∀ cell, m.cell? = some cell →
      (execute cell m.counted).Alike R exempt (execute cell n.counted)) :
    m.step.Alike R exempt n.step := by
  have hstatus := hR.shares .status (by simp)
  have hsame : m.status = n.status := hstatus.same h
  by_cases hrun : m.status = .running
  · have hnext := executeNext_alike hR h (hcell hrun)
    simp only [step, hrun, hsame ▸ hrun]
    -- Both faults become the status; a fault that is exempt leaves nothing to show.
    generalize executeNext m = r at hnext ⊢
    generalize executeNext n = q at hnext ⊢
    cases hnext with
    | @ok motion s t hst =>
      -- The step answers with the status after the move, and this is shared.
      have hmove : R (s.move motion) (t.move motion) :=
        related_move (hR.shares .leaping (by simp)) (fun _ _ => hR.pace) hst motion
      have hs : (s.move motion).status = (t.move motion).status := hstatus.same hmove
      simp only [hs]
      exact .ok hmove
    | error hst => exact .error (hstatus.put _ hst)
    | exempted he => exact .exempted he
  · rw [step_of_not_running hrun, step_of_not_running (hsame ▸ hrun), hsame]
    exact .ok h

/-! ## Runs -/

/-- Machines stay related as long as their steps are alike, up to the first fault that is exempt. -/
theorem related_after {k : Nat} (h : R m n)
    (hstep : ∀ j < k, R (m.after j) (n.after j) →
      (m.after j).step.Alike R exempt (n.after j).step)
    (hnone : ∀ j < k, ∀ fault t, (m.after j).step = .error fault t → ¬exempt fault) :
    R (m.after k) (n.after k) := by
  -- By induction on the steps, the last one taken off.
  induction k with
  | zero => exact h
  | succ k ih =>
    have hk : R (m.after k) (n.after k) :=
      ih (fun j hj => hstep j (by omega)) fun j hj => hnone j (by omega)
    -- Both take one step more, and the step of the first does not end in an exempt fault.
    rw [after_succ, after_succ]
    exact (hstep k (by omega) hk).state (hnone k (by omega))

end Machine

end Fish
