import Fish.Proofs.Budgets
import Fish.Proofs.Soundness
import Fish.Proofs.StraightTravel
import Mathlib.Data.Finset.Card
import Mathlib.Data.Finset.Prod

/-!
# Mirror mazes

A grid whose cells are blanks and mirrors with a rule of their own is a maze through which the
pointer travels for ever. `Grid.onward` is its way from cell to cell. A mirror takes the reversed
outgoing heading to the reversed incoming one, so a pointer that is set one pace back and turned
around, `Pointer.behind`, travels its way in reverse. Hence no two ways ever join, and as there are
only so many places and headings, every way is a round.

Main lemmas:

* `Pointer.behind_behind`         setting the pointer behind itself twice does nothing
* `Grid.onward_behind_onward`     one cell of the way back
* `Grid.iterate_onward_behind`    the whole way back
* `Grid.injOn_onward`             no two ways join
* `Grid.exists_period`            every way is a round
* `Machine.step_of_roams`         a step in a maze
* `Machine.after_of_roams`        any number of steps
* `Machine.mazes_reversible`      all of it about one maze
-/

namespace Fish

namespace Pointer

variable {p : Pointer} {bounds : Point}

/-- The pointer one pace behind, heading the other way. -/
def behind (p : Pointer) (bounds : Point) : Pointer where
  position :=
    ⟨(p.position.x - p.heading.vector.x) % bounds.x, (p.position.y - p.heading.vector.y) % bounds.y⟩
  heading := p.heading.opposite

/-- Behind is where the pointer gets if it turns back and advances. -/
theorem behind_eq_paced (p : Pointer) (bounds : Point) :
    p.behind bounds = p.turnBack.paced bounds 1 := by
  ext <;> simp [behind, paced, reach, Point.wrap, Heading.vector_opposite, Int.sub_eq_add_neg]

/-- The place behind a place inside is inside. -/
theorem inside_behind (h : p.position.Inside bounds) :
    (p.behind bounds).position.Inside bounds := by
  rw [behind_eq_paced]
  exact inside_paced (p := p.turnBack) h 1

/-- Behind the next place is the present one, with the heading the other way. -/
theorem behind_advance (h : p.position.Inside bounds) :
    (p.advance bounds).behind bounds = p.turnBack := by
  rw [advance_eq_paced h, behind_eq_paced, turnBack_paced_paced h]

/-- Behind the place behind is the present one. -/
theorem behind_behind (h : p.position.Inside bounds) : (p.behind bounds).behind bounds = p := by
  rw [behind_eq_paced p, behind_eq_paced, turnBack_paced_paced (p := p.turnBack) h,
    turnBack_turnBack]

end Pointer

/-! ## The way through a maze -/

/-- The instructions that a maze is built of. -/
def mazeInstructions : List Instruction :=
  [.blank, .mirror .forward, .mirror .backward, .mirror .vertical, .mirror .horizontal,
    .mirror .reverse]

/-- The heading after a cell of a maze: a mirror reflects, a blank lets pass. -/
def Instruction.deflect : Instruction → Heading → Heading
  | .mirror kind, h => h.reflect kind
  | _, h => h

/-- A cell can be passed back the way that it was passed. -/
theorem Instruction.deflect_opposite_deflect (i : Instruction) (h : Heading) :
    i.deflect (i.deflect h).opposite = h.opposite := by
  cases i with
  | mirror kind => exact h.reflect_opposite_reflect kind
  | _ => rfl

namespace Grid

variable {g : Grid} {p q : Pointer}

/-- The grid has cells, and all of them are blanks or mirrors with a rule of their own. -/
structure IsMaze (g : Grid) : Prop where
  hasCells : g.isEmpty = false
  cells : ∀ row ∈ g.rows, ∀ cell ∈ row, cell.instruction ∈ mazeInstructions

/-- The pointer after the cell that it is at: deflected, and one pace on. -/
def onward (g : Grid) (p : Pointer) : Pointer :=
  match g.lookup p.position with
  | some cell => (p.turn (cell.instruction.deflect p.heading)).advance g.bounds
  | none => p

/-- At a cell the pointer is deflected and takes a pace. -/
theorem onward_of_lookup {cell : Cell} (h : g.lookup p.position = some cell) :
    g.onward p = (p.turn (cell.instruction.deflect p.heading)).advance g.bounds := by
  rw [onward, h]

/-- A pointer inside is at a cell. -/
theorem exists_lookup (h : p.position.Inside g.bounds) : ∃ cell, g.lookup p.position = some cell :=
  Option.isSome_iff_exists.1 ((lookup_isSome_iff _).2 (isEmpty_of_inside h))

/-- The way does not lead out of the grid. -/
theorem mapsTo_onward :
    Set.MapsTo g.onward {p | p.position.Inside g.bounds} {p | p.position.Inside g.bounds} := by
  intro p h
  obtain ⟨cell, hcell⟩ := exists_lookup h
  obtain ⟨hx, hy⟩ := bounds_pos (isEmpty_of_inside h)
  show (g.onward p).position.Inside g.bounds
  rw [onward_of_lookup hcell]
  exact Pointer.inside_advance _ hx hy

/-- The way does not lead out of the grid, however long it is. -/
theorem inside_iterate_onward (h : p.position.Inside g.bounds) (k : Nat) :
    (g.onward^[k] p).position.Inside g.bounds :=
  mapsTo_onward.iterate k h

/-- From behind the place that it has come to, the pointer passes its last cell back. -/
theorem onward_behind_onward (h : p.position.Inside g.bounds) :
    g.onward ((g.onward p).behind g.bounds) = p.behind g.bounds := by
  obtain ⟨cell, hcell⟩ := exists_lookup h
  -- Set back, the pointer is at the same cell again, turned back after the cell has turned it.
  let turned := p.turn (cell.instruction.deflect p.heading)
  have hback : (g.onward p).behind g.bounds = turned.turnBack := by
    rw [onward_of_lookup hcell]
    exact Pointer.behind_advance (p := turned) h
  have hturned : turned.turnBack.turn (cell.instruction.deflect turned.turnBack.heading) =
      p.turnBack :=
    Pointer.ext rfl (cell.instruction.deflect_opposite_deflect p.heading)
  have hsame : g.lookup turned.turnBack.position = some cell := hcell
  rw [hback, onward_of_lookup hsame, hturned, Pointer.behind_eq_paced,
    Pointer.advance_eq_paced (p := p.turnBack) h]

/-- From behind the place that it has come to, the pointer travels the whole way back, and gets
    behind the place where the way began. -/
theorem iterate_onward_behind (h : p.position.Inside g.bounds) (k : Nat) :
    g.onward^[k] ((g.onward^[k] p).behind g.bounds) = p.behind g.bounds := by
  -- The first cell of the way back is the last one of the way there.
  induction k with
  | zero => rfl
  | succ k ih =>
    rw [Function.iterate_succ_apply, Function.iterate_succ_apply',
      onward_behind_onward (inside_iterate_onward h k), ih]

/-- No two ways join. -/
theorem injOn_onward : Set.InjOn g.onward {p | p.position.Inside g.bounds} := by
  intro p hp q hq heq
  -- From behind the common place both ways lead back behind the place where they began.
  have hbehind : p.behind g.bounds = q.behind g.bounds := by
    rw [← onward_behind_onward hp, heq, onward_behind_onward hq]
  calc p = (p.behind g.bounds).behind g.bounds := (Pointer.behind_behind hp).symm
    _ = (q.behind g.bounds).behind g.bounds := by rw [hbehind]
    _ = q := Pointer.behind_behind hq

/-! ## Rounds -/

/-- Column, row and heading of a pointer. -/
def place (p : Pointer) : Nat × Nat × Heading :=
  (p.position.x.toNat, p.position.y.toNat, p.heading)

/-- The columns, rows and headings of a grid. -/
def places (g : Grid) : Finset (Nat × Nat × Heading) :=
  Finset.range g.width ×ˢ Finset.range g.height ×ˢ {.up, .right, .down, .left}

/-- Every column, row and heading make one place. -/
theorem card_places (g : Grid) : g.places.card = 4 * g.width * g.height := by
  have hheadings : ({.up, .right, .down, .left} : Finset Heading).card = 4 := rfl
  rw [places, Finset.card_product, Finset.card_product, Finset.card_range, Finset.card_range,
    hheadings]
  rw [← Nat.mul_assoc, Nat.mul_comm, ← Nat.mul_assoc]

/-- A pointer inside has its place in the grid. -/
theorem place_mem_places (h : p.position.Inside g.bounds) : place p ∈ g.places := by
  obtain ⟨⟨hx0, hx⟩, ⟨hy0, hy⟩⟩ := h
  rw [bounds_x] at hx
  rw [bounds_y] at hy
  simp only [place, places, Finset.mem_product, Finset.mem_range]
  refine ⟨by omega, by omega, ?_⟩
  cases p.heading <;> decide

/-- Pointers inside with the same place are the same. -/
theorem eq_of_place_eq (hp : p.position.Inside g.bounds) (hq : q.position.Inside g.bounds)
    (h : place p = place q) : p = q := by
  obtain ⟨⟨hpx, -⟩, ⟨hpy, -⟩⟩ := hp
  obtain ⟨⟨hqx, -⟩, ⟨hqy, -⟩⟩ := hq
  simp only [place, Prod.mk.injEq] at h
  obtain ⟨hx, hy, hheading⟩ := h
  exact Pointer.ext (Point.ext (by omega) (by omega)) hheading

/-- Every way is a round, and no longer than there are places and headings. -/
theorem exists_period (h : p.position.Inside g.bounds) :
    ∃ period, 1 ≤ period ∧ period ≤ 4 * g.width * g.height ∧ g.onward^[period] p = p := by
  -- On a way that is longer, one place is met twice with one heading.
  have hmany : g.places.card < (Finset.range (4 * g.width * g.height + 1)).card := by
    rw [card_places, Finset.card_range]
    omega
  obtain ⟨i, hi, j, hj, hne, heq⟩ :=
    Finset.exists_ne_map_eq_of_card_lt_of_maps_to hmany (f := fun k => place (g.onward^[k] p))
      fun k _ => place_mem_places (inside_iterate_onward h k)
  rw [Finset.mem_range] at hi hj
  have hmet : g.onward^[i] p = g.onward^[j] p :=
    eq_of_place_eq (inside_iterate_onward h i) (inside_iterate_onward h j) heq
  -- What came before the first of the two times is the same for both.
  have hround {i j : Nat} (hij : i < j) (hmet : g.onward^[i] p = g.onward^[j] p) :
      g.onward^[j - i] p = p := by
    have hsplit : g.onward^[j] p = g.onward^[i] (g.onward^[j - i] p) := by
      rw [← Function.iterate_add_apply, Nat.add_sub_cancel' (Nat.le_of_lt hij)]
    exact injOn_onward.iterate mapsTo_onward i (inside_iterate_onward h _) h
      (hsplit.symm.trans hmet.symm)
  rcases Nat.lt_or_gt_of_ne hne with hlt | hlt
  · exact ⟨j - i, by omega, by omega, hround hlt hmet⟩
  · exact ⟨i - j, by omega, by omega, hround hlt hmet.symm⟩

end Grid

/-! ## Machines in mazes -/

namespace Machine

open Grid

variable {g : Grid} {m n : Machine}

/-- The machine works on the grid, is running, and is not between quotes. -/
structure Roams (g : Grid) (m : Machine) : Prop extends Sound g m where
  running : m.status = .running
  obeying : m.quoting = false

/-- Every machine roams the maze that it is started on. -/
theorem roams_start (g : Grid) (values : List Binary64) (seed : UInt64) (input : Input)
    (output : Output) : Roams g (start g values seed input output) where
  toSound := sound_start g values seed input output
  running := rfl
  obeying := rfl

/-- The machine with its pointer elsewhere and more cells executed. -/
def moved (m : Machine) (pointer : Pointer) (steps : Nat) : Machine :=
  { m with pointer, steps := m.steps + steps }

/-- A machine that roams a maze does so from any other place of the maze. -/
theorem Roams.moved (hg : g.IsMaze) (h : Roams g m) {p : Pointer}
    (hp : p.position.Inside g.bounds) (k : Nat) : Roams g (m.moved p k) where
  grid_eq := h.grid_eq
  inside _ := hp
  home hempty := absurd hempty (by simp [hg.hasCells])
  landed := h.landed
  running := h.running
  obeying := h.obeying

/-- A step in a maze takes the pointer one cell on, counts the cell, and does nothing else. -/
theorem step_of_roams (hg : g.IsMaze) (h : Roams g m) :
    m.step = .ok .running (m.moved (g.onward m.pointer) 1) := by
  obtain rfl := h.grid_eq
  obtain ⟨cell, hcell⟩ := exists_lookup (h.inside hg.hasCells)
  obtain ⟨row, hrow, hmem⟩ := mem_of_lookup hcell
  have hkind := hg.cells row hrow cell hmem
  have hexecute : executeNext m = .ok .advance { m.counted with
      pointer := m.pointer.turn (cell.instruction.deflect m.pointer.heading) } := by
    rw [executeNext_of_obeying hcell (.inl h.obeying), obey]
    -- None of the instructions of a maze touches anything but the heading.
    simp only [mazeInstructions, List.mem_cons, List.not_mem_nil, or_false] at hkind
    rcases hkind with hi | hi | hi | hi | hi | hi <;> rw [hi] <;> rfl
  rw [step_of_advance h.running hexecute h.running h.landed, onward_of_lookup hcell]
  rfl

/-- The machine after a step in a maze is one cell on. -/
theorem next_of_roams (hg : g.IsMaze) (h : Roams g m) :
    m.next = m.moved (g.onward m.pointer) 1 := by
  rw [next, step_of_roams hg h]
  rfl

/-- The machine is on the way of its pointer after every number of steps. -/
theorem after_of_roams (hg : g.IsMaze) (h : Roams g m) (k : Nat) :
    m.after k = m.moved (g.onward^[k] m.pointer) k := by
  have hinside := inside_iterate_onward (h.inside hg.hasCells)
  induction k with
  | zero => rfl
  | succ k ih =>
    rw [after_succ, ih, next_of_roams hg (h.moved hg (hinside k) k),
      Function.iterate_succ_apply']
    rfl

/-- A machine that is still running after every number of steps comes to no end. -/
theorem run_eq_none (h : ∀ k, (m.after k).status = .running) : m.run = none := by
  cases hrun : m.run with
  | none => rfl
  | some r =>
    have hends := run_eq_some_iff.1 hrun
    obtain ⟨k, hk⟩ := hends.exists_after
    exact absurd (hk ▸ h k) hends.stopped

/-- After a number of steps, one pace back and a turn around, as many steps lead behind the place
    where the first of them began. -/
theorem pointer_after_behind (hg : g.IsMaze) (h : Roams g m) (k : Nat) :
    let n := m.after k
    ({ n with pointer := n.pointer.behind g.bounds }.after k).pointer =
      m.pointer.behind g.bounds := by
  intro n
  have hinside := h.inside hg.hasCells
  have hn : n = m.moved (g.onward^[k] m.pointer) k := after_of_roams hg h k
  have hback : ((g.onward^[k] m.pointer).behind g.bounds).position.Inside g.bounds :=
    Pointer.inside_behind (inside_iterate_onward hinside k)
  -- The machine that is set back roams the maze too, so its steps are known as well.
  have hroams := h.moved hg hback k
  rw [hn]
  show ((m.moved ((g.onward^[k] m.pointer).behind g.bounds) k).after k).pointer = _
  rw [after_of_roams hg hroams]
  exact iterate_onward_behind hinside k

/-- In a maze every step of a machine that is running outside quotes, with its pointer inside,
    succeeds and leaves such a machine, and from different pointers it leads to different ones. If
    the pointer is set one pace behind and turned around after a number of steps, then after as many
    steps more it is one pace behind where it was at first, and heads the other way. From the start
    the pointer is back in the upper left corner and heading right after a number of steps that is
    no greater than four times the number of cells; so the machine never stops running, whatever its
    budget and without one, and after every round only the count of its steps is another. -/
theorem mazes_reversible (hg : g.IsMaze) :
    (∀ m, Roams g m → ∃ n, m.step = .ok .running n ∧ Roams g n) ∧
    (∀ m n, Roams g m → Roams g n → m.pointer ≠ n.pointer → m.next.pointer ≠ n.next.pointer) ∧
    (∀ m, Roams g m → ∀ k, let n := m.after k
      ({ n with pointer := n.pointer.behind g.bounds }.after k).pointer =
        m.pointer.behind g.bounds) ∧
    ∀ values seed input output, let m := start g values seed input output
      m.run = none ∧ (∀ k, m.runFor k = .ok .running (m.after k)) ∧
        ∃ period, 1 ≤ period ∧ period ≤ 4 * g.width * g.height ∧
          (m.after period).pointer = ⟨⟨0, 0⟩, .right⟩ ∧
          ∀ k, m.after (k + period) = { m.after k with steps := k + period } := by
  refine ⟨fun m h => ?_, fun m n hm hn => ?_, fun m h => pointer_after_behind hg h,
    fun values seed input output => ?_⟩
  · have hinside := mapsTo_onward (h.inside hg.hasCells)
    exact ⟨_, step_of_roams hg h, h.moved hg hinside 1⟩
  · rw [next_of_roams hg hm, next_of_roams hg hn]
    exact injOn_onward.ne (hm.inside hg.hasCells) (hn.inside hg.hasCells)
  · intro m
    have hroams : Roams g m := roams_start g values seed input output
    have hafter := after_of_roams hg hroams
    -- The machine roams for ever, so it comes to no end and no budget ends it.
    have hrunning (k : Nat) : (m.after k).status = .running := by
      rw [hafter]
      exact hroams.running
    obtain ⟨period, hone, hmost, hback⟩ := exists_period (hroams.inside hg.hasCells)
    refine ⟨run_eq_none hrunning, fun k => runFor_of_running (hrunning k), period, hone, hmost, ?_,
      fun k => ?_⟩
    · rw [hafter]
      exact hback
    · -- The round comes first, and leaves the way as it was.
      rw [hafter, hafter, Function.iterate_add_apply, hback]
      simp [moved, m, start]

/-- Round four cells on the inside, and then on the outside, over every edge of the grid. -/
theorem mazes_reversible_over_every_edge :
    let g : Grid := .ofRows ([" \\", "\\/"].map fun row => row.toList.map .ofChar)
    let m := start g [] 0 {} {}
    g.IsMaze ∧ m.run = none ∧
      ∃ period, 1 ≤ period ∧ period ≤ 16 ∧ (m.after period).pointer = ⟨⟨0, 0⟩, .right⟩ := by
  intro g m
  have hg : g.IsMaze := ⟨by decide, by decide⟩
  obtain ⟨-, -, -, hstart⟩ := mazes_reversible hg
  obtain ⟨hrun, -, period, hone, hmost, hback, -⟩ := hstart [] 0 {} {}
  exact ⟨hg, hrun, period, hone, hmost, hback⟩

end Machine

end Fish
