import Fish.Proofs.Calls
import Fish.Proofs.CheckedMoves
import Fish.Proofs.FaultConditions

/-!
# Where the pointer can be

`Sound` is the invariant of a machine between steps: the pointer is inside the grid, or still at the
origin if the grid has no cells, and no leap is pending. It holds at the start and is kept by every
step, whatever the instruction does and whether it faults, so it holds of every machine that any
calls lead to. There the cell that is executed is the one at the position itself, without folding,
and no move overflows.

Main lemmas:

* `sound_start`           a machine is sound before its first step
* `Sound.next`            a step keeps a machine sound
* `History.sound_moves`   what this means for every machine that calls lead to
-/

namespace Fish.Machine

variable {g : Grid} {m n : Machine} {cell : Cell}

/-- The machine works on the grid and its pointer has landed there. -/
structure Sound (g : Grid) (m : Machine) : Prop where
  grid_eq : m.grid = g
  inside : g.isEmpty = false → m.pointer.position.Inside g.bounds
  home : g.isEmpty = true → m.pointer.position = .origin
  landed : m.leaping = false

/-- A machine is sound before its first step. -/
theorem sound_start (g : Grid) (values : List Binary64) (seed : UInt64) (input : Input)
    (output : Output) : Sound g (start g values seed input output) where
  grid_eq := rfl
  inside h := by
    obtain ⟨hx, hy⟩ := Grid.bounds_pos h
    exact ⟨⟨Int.le_refl 0, hx⟩, ⟨Int.le_refl 0, hy⟩⟩
  home _ := rfl
  landed := rfl

/-! ## What a cell does to the pointer -/

/-- Before the pointer goes on it is where it was: only a jump changes its place, and after a jump
    it does not go on. -/
theorem position_of_advance (h : execute cell m = .ok .advance n) :
    n.pointer.position = m.pointer.position := by
  by_cases hmoves : Part.position ∈ m.writes cell
  · -- The cell is a jump that is obeyed, and a jump holds the pointer.
    obtain ⟨hobey, hwrites⟩ := obeying_of_mem_writes hmoves nofun
    have hjump := Instruction.eq_jump_of_position hwrites
    rw [execute_of_obeying hobey, obey, hjump] at h
    simp only [jump_apply] at h
    split at h <;> cases h
  · have hkeep := execute_keeps hmoves
    rwa [h] at hkeep

/-- A cell that holds the pointer has put it inside the grid, or left it where it was. -/
theorem landed_of_stay (h : execute cell m = .ok .stay n) (hcells : m.grid.isEmpty = false) :
    n.leaping = m.leaping ∧
      (n.pointer.position.Inside m.grid.bounds ∨ n.pointer.position = m.pointer.position) := by
  rcases obeying_or_quoting m cell with hobey | ⟨hq, hc⟩
  · rw [execute_of_obeying hobey] at h
    rcases instruction_of_stay h with hi | hi
    · rw [obey, hi] at h
      simp only [jump_apply] at h
      split at h
      · -- The target is folded into the grid, which has cells to fold it to.
        cases h
        obtain ⟨hx, hy⟩ := Grid.bounds_pos hcells
        exact ⟨rfl, .inl (Pointer.inside_jump _ _ hx hy)⟩
      · cases h
    · -- A halt moves nothing.
      have hposition := obey_keeps (p := .position) cell (by simp [hi, Instruction.writes]) m
      have hleaping := obey_keeps (p := .leaping) cell (by simp [hi, Instruction.writes]) m
      rw [h] at hposition hleaping
      exact ⟨hleaping, .inr hposition⟩
  · rw [execute_of_quoting hq hc] at h
    cases h

/-! ## The invariant -/

/-- A move over a grid with cells ends inside it, and a leap ends with it. -/
theorem sound_move (hgrid : m.grid = g) (hcells : g.isEmpty = false) :
    Sound g (m.move .advance) := by
  subst hgrid
  obtain ⟨hx, hy⟩ := Grid.bounds_pos hcells
  refine ⟨move_keeps (p := .grid) nofun nofun m .advance, fun _ => ?_, fun h => ?_, ?_⟩
  · -- Both the pace and the second one of a leap fold the pointer into the grid.
    rw [move]
    split
    · exact Pointer.inside_advance _ hx hy
    · exact Pointer.inside_advance _ hx hy
  · rw [hcells] at h
    cases h
  · rw [move]
    split
    · rfl
    · -- Without a leap there was none pending.
      rename_i hleap
      exact Bool.eq_false_iff.2 hleap

/-- Another status does not matter, and neither does anything else but grid, position and leap. -/
theorem Sound.of_eq (h : Sound g m) (hgrid : n.grid = m.grid)
    (hposition : n.pointer.position = m.pointer.position) (hleaping : n.leaping = m.leaping) :
    Sound g n where
  grid_eq := hgrid.trans h.grid_eq
  inside hcells := hposition ▸ h.inside hcells
  home hempty := hposition.trans (h.home hempty)
  landed := hleaping.trans h.landed

/-- A step keeps a machine sound. -/
theorem Sound.next (h : Sound g m) : Sound g m.next := by
  by_cases hrun : m.status = .running
  · rcases step_cases hrun with ⟨cell, motion, n, hc, he, hstep⟩ | ⟨cell, fault, n, hc, he, hstep⟩ |
      ⟨-, -, hstep⟩ | ⟨reason, -, -, hstep⟩
    · -- There is a cell, so the grid is not empty and every place that a move leads to is inside.
      have hgrid := grid_execute cell m.counted
      rw [he] at hgrid
      have hcells := isEmpty_of_cell hc
      rw [Machine.next, hstep]
      cases motion with
      | advance => exact sound_move (hgrid.trans h.grid_eq) (h.grid_eq ▸ hcells)
      | stay =>
        -- The cell was a jump, which lands inside the grid, or a halt.
        obtain ⟨hleaping, hinside | hposition⟩ := landed_of_stay he hcells
        · have hcells := h.grid_eq ▸ hcells
          have hinside := h.grid_eq ▸ hinside
          refine ⟨hgrid.trans h.grid_eq, fun _ => hinside, fun hempty => ?_, ?_⟩
          · rw [hcells] at hempty
            cases hempty
          · exact hleaping.trans h.landed
        · exact h.of_eq hgrid hposition hleaping
    · -- A fault changes neither the pointer nor the leap.
      obtain ⟨-, hfault⟩ := execute_error he
      have hgrid := grid_execute cell m.counted
      rw [he] at hgrid
      rw [Machine.next, hstep]
      exact h.of_eq hgrid (congrArg Pointer.position hfault.pointer_eq) hfault.leaping_eq
    · rw [Machine.next, hstep]
      exact h.of_eq rfl rfl rfl
    · rw [Machine.next, hstep]
      exact h.of_eq rfl rfl rfl
  · rw [next_of_not_running hrun]
    exact h

/-- Every history leads from a machine before its first step to a sound one. -/
theorem History.sound {values : List Binary64} {seed : UInt64} {input : Input} {output : Output}
    {es : List Exchange} (h : History (start g values seed input output) es m) : Sound g m :=
  h.invariant (fun _ => Sound.next) (sound_start g values seed input output)

/-! ## What a sound machine executes, and how it moves -/

/-- Without folding, the cell of a sound machine is the one at its position. -/
theorem Sound.cell?_eq (h : Sound g m) : m.cell? = g.cell? m.pointer.position := by
  rw [cell?, h.grid_eq, Grid.lookup]
  -- Inside the grid folding changes nothing, and an empty grid has no cell to be folded to.
  cases hempty : g.isEmpty with
  | true => rw [if_pos rfl, Grid.cell?_of_isEmpty hempty]
  | false => rw [if_neg Bool.false_ne_true, (h.inside hempty).wrap_eq]

/-- The paces that a sound machine takes after its cell neither overflow nor take a remainder by
    zero. -/
theorem Sound.checkedMove_eq (h : Sound g m) (hword : g.bounds.IsWord) {motion : Motion}
    (he : executeNext m = .ok motion n) : n.checkedMove motion = some (n.move motion) := by
  cases motion with
  | stay => rfl
  | advance =>
    cases hc : m.cell? with
    | none =>
      -- Without a cell the machine halts or faults, and does not move.
      rw [executeNext_of_no_cell hc] at he
      split at he <;> cases he
    | some cell =>
      rw [executeNext_of_cell hc] at he
      have hgrid := grid_execute cell m.counted
      rw [he] at hgrid
      have hgrid : n.grid = g := hgrid.trans h.grid_eq
      -- The pointer is still where the cell was, so inside the grid, whose sides are words.
      have hposition : n.pointer.position = m.pointer.position :=
        position_of_advance (m := m.counted) he
      have hinside := h.inside (h.grid_eq ▸ isEmpty_of_cell hc)
      rw [← hposition, ← hgrid] at hinside
      exact Machine.checkedMove_eq hinside (hgrid ▸ hword) .advance

/-- Whatever calls were made since the start, the pointer is inside the grid or has stayed at the
    origin of an empty one, it has one of the four headings, there is an active stack, and no leap
    is pending. Hence the cell that is executed is the one in the row and column of the position,
    no lookup and no jump takes a remainder by zero, and if the sides of the grid are words then no
    pace overflows. -/
theorem History.sound_moves {values : List Binary64} {seed : UInt64} {input : Input}
    {output : Output} {es : List Exchange}
    (h : History (start g values seed input output) es m) :
    (g.isEmpty = false → m.pointer.position.Inside g.bounds) ∧
      (g.isEmpty = true → m.pointer.position = .origin) ∧
      m.pointer.heading.vector ∈ ([⟨0, -1⟩, ⟨1, 0⟩, ⟨0, 1⟩, ⟨-1, 0⟩] : List Point) ∧
      m.tower.toList.getLast? = some m.stack ∧
      m.leaping = false ∧
      m.cell? =
        g.rows[m.pointer.position.y.toNat]?.bind (·[m.pointer.position.x.toNat]?) ∧
      g.checkedLookup m.pointer.position = some m.cell? ∧
      (∀ target, m.pointer.checkedJump target g.bounds = some (m.pointer.jump target g.bounds)) ∧
      (g.bounds.IsWord → ∀ motion n, executeNext m = .ok motion n →
        n.checkedMove motion = some (n.move motion)) := by
  have hsound := h.sound
  refine ⟨hsound.inside, hsound.home, Heading.vector_mem _, ?_, hsound.landed, hsound.cell?_eq,
    ?_, fun target => Pointer.checkedJump_eq .., fun hword motion n => hsound.checkedMove_eq hword⟩
  · simp [Tower.toList, stack]
  · rw [Grid.checkedLookup_eq, cell?, hsound.grid_eq]

/-- A jump to the column at infinity and the row that is not a number. -/
theorem sound_moves_far_jump :
    let m := start (.ofRows [[.ofChar '.', .blank]]) [.infinite false, .nan] 0 {} {}
    History m [⟨.step, Call.resultOf some m.step⟩] m.next ∧
      m.next.pointer.position.Inside m.grid.bounds ∧ m.next.leaping = false := by
  intro m
  have h : History m [⟨.step, Call.resultOf some m.step⟩] m.next := .cons rfl .nil
  have hcells : m.grid.isEmpty = false := by decide
  obtain ⟨hinside, -, -, -, hlanded, -⟩ := h.sound_moves
  exact ⟨h, hinside hcells, hlanded⟩

end Fish.Machine
