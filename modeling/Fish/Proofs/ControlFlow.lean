import Fish.Proofs.Lockstep

/-!
# Where data can lead a program

The route of a machine is where it has got to and what decides where it goes from there: the place
and the heading of the pointer, whether the machine is between quotes or leaping, and the generator
of random headings. Every instruction but two either looks at nothing but the route, or leaves the
route alone: a skip on zero and a jump are the only ones that take something from the stack and go
by it. On a grid with neither of them two machines with the same seed therefore take the same route
as long as both are running, whatever their stacks, inputs and outputs are; and what is put over a
cell does not change what is executed there.

Main lemmas:

* `Instruction.route_cases`   an instruction depends on the route alone or does not change it
* `agree_execute`             a cell takes machines with one route to machines with one route
* `agree_next`                so does a step after which both are running
* `same_route_from_seed`      two runs of one program
-/

namespace Fish

/-- No cell of the grid decides by data where execution goes on. -/
def Grid.Undeciding (g : Grid) : Prop :=
  ∀ row ∈ g.rows, ∀ cell ∈ row, cell.instruction ≠ .skipIfZero ∧ cell.instruction ≠ .jump

instance (g : Grid) : Decidable g.Undeciding :=
  inferInstanceAs (Decidable (∀ row ∈ g.rows, ∀ cell ∈ row, _ ∧ _))

/-- The parts that say where a machine has got to, and where it goes if no data is asked. -/
def Part.route : List Part :=
  [.grid, .position, .heading, .quoting, .leaping, .generator, .steps]

/-- An instruction that does not decide by data touches nothing but the route, or leaves it alone.
    -/
theorem Instruction.route_cases {i : Instruction} (hskip : i ≠ .skipIfZero) (hjump : i ≠ .jump) :
    (∀ p ∈ i.touches, p ∈ Part.route) ∨ ∀ p ∈ i.writes, p ∉ Part.route := by
  cases i with
  | skipIfZero | jump => contradiction
  | mirror mirror => cases mirror <;> simp [touches, writes, Part.route]
  | stack command => cases command <;> simp [touches, writes, Part.route]
  | _ => simp [touches, writes, Part.route]

namespace Machine

variable {m n : Machine} {cell : Cell} {parts : List Part} {g : Grid}

/-- The machines have the given parts in common. -/
def Agree (parts : List Part) (m n : Machine) : Prop := ∀ p ∈ parts, p.view m = p.view n

/-- A part that is among the common ones is shared, and a change of it does not touch the others. -/
theorem shares_agree {p : Part} (hp : p ∈ parts) : Shares (Agree parts) p where
  same h := h p hp
  put {m n} c h q hq := by
    by_cases hqp : q = p
    · rw [hqp, Part.view_put_self, Part.view_put_self]
    · rw [Part.view_put_of_ne hqp, Part.view_put_of_ne hqp]
      exact h q hq

/-! ## Cells -/

/-- A cell that leaves the common parts of two machines alone leaves them in common. -/
theorem agree_execute_of_disjoint (h : Agree parts m n) (hm : ∀ p ∈ m.writes cell, p ∉ parts)
    (hn : ∀ p ∈ n.writes cell, p ∉ parts) :
    Agree parts (execute cell m).state (execute cell n).state := by
  intro p hp
  rw [execute_keeps fun hwrites => hm p hwrites hp, execute_keeps fun hwrites => hn p hwrites hp]
  exact h p hp

/-- A cell that does not decide by data takes machines with one route to machines with one route,
    also if it succeeds on one of them only. -/
theorem agree_execute (h : Agree Part.route m n) (hskip : cell.instruction ≠ .skipIfZero)
    (hjump : cell.instruction ≠ .jump) :
    Agree Part.route (execute cell m).state (execute cell n).state := by
  have hquoting : m.quoting = n.quoting := h .quoting (by decide)
  rcases obeying_or_quoting m cell with hobey | ⟨hq, hc⟩
  · have hobey' : n.quoting = false ∨ cell.instruction = .quote := by rwa [← hquoting]
    -- The instruction goes by the route, or by data that it keeps away from the route.
    rcases Instruction.route_cases hskip hjump with htouches | hwrites
    · -- The instruction depends on what both machines have in common.
      rw [execute_of_obeying hobey, execute_of_obeying hobey']
      have hrespects : Action.Respects (Agree Part.route) (fun _ => False) (obey cell) :=
        obey_respects fun p hp => shares_agree (htouches p hp)
      exact (hrespects m n h).state fun _ _ _ => id
    · -- It may see different data, and may fault in one machine only, but keeps to the data.
      apply agree_execute_of_disjoint h
      · rwa [writes_of_obeying hobey]
      · rwa [writes_of_obeying hobey']
  · -- Between quotes a cell only pushes its character.
    apply agree_execute_of_disjoint h
    · simp [writes_of_quoting hq hc, Part.route]
    · simp [writes_of_quoting (hquoting ▸ hq) hc, Part.route]

/-! ## Steps -/

/-- A halt that succeeds has ended the program. -/
theorem status_of_obey_halt {motion : Motion} (hi : cell.instruction = .halt)
    (h : obey cell m = .ok motion n) : n.status = .halted := by
  simp only [obey, hi, Action.bind_apply, halt_apply] at h
  cases hflush : m.output.flushDefect with
  | none =>
    rw [hflush] at h
    cases h
    rfl
  | some reason =>
    rw [hflush] at h
    cases h

/-- A step after which the machine is running has executed a cell, and has moved on to the next one
    unless this was a jump. -/
theorem next_of_next_running (h : m.next.status = .running) :
    m.status = .running ∧ ∃ cell, m.cell? = some cell ∧
      (cell.instruction ≠ .jump → m.next = (execute cell m.counted).state.move .advance) := by
  have hrun : m.status = .running := by
    by_contra hstop
    rw [next_of_not_running hstop] at h
    contradiction
  -- A step that faults or halts would have left a machine that is not running.
  obtain ⟨motion, t, he, hnext⟩ := executeNext_of_step_ok hrun (step_of_next_running h)
  refine ⟨hrun, ?_⟩
  cases hc : m.cell? with
  | none =>
    -- Without a cell the machine would not be running now.
    obtain ⟨status, hstatus, hend⟩ := next_of_no_cell hrun hc
    rw [hend] at h
    contradiction
  | some cell =>
    refine ⟨cell, rfl, fun hjump => ?_⟩
    rw [executeNext_of_cell hc] at he
    rw [he, hnext]
    cases motion with
    | advance => rfl
    -- Only a jump and a halt hold the pointer, and after a halt the machine would not be running.
    | stay =>
      rcases obeying_or_quoting m.counted cell with hobey | ⟨hq, hc⟩
      · rw [execute_of_obeying hobey] at he
        have hi := (instruction_of_stay he).resolve_left hjump
        rw [hnext, status_move, status_of_obey_halt hi he] at h
        contradiction
      · rw [execute_of_quoting hq hc] at he
        cases he

/-- On one grid a pace takes pointers that are at the same place to the same place. -/
theorem agree_pace (m n : Machine) (h : Agree Part.route m n) : Agree Part.route m.pace n.pace := by
  have hgrid : m.grid = n.grid := h .grid (by decide)
  have hposition : m.pointer.position = n.pointer.position := h .position (by decide)
  have hheading : m.pointer.heading = n.pointer.heading := h .heading (by decide)
  have hpointer : m.pointer = n.pointer := Pointer.ext hposition hheading
  intro p hp
  -- The place is a function of the pointer and the grid, and no other part changes.
  by_cases hpos : p = .position
  · subst hpos
    simp only [Part.view, pace, hpointer, hgrid]
  · rw [pace_keeps hpos, pace_keeps hpos]
    exact h p hp

/-- Machines with one route are at the same cell. -/
theorem Agree.cell?_eq (h : Agree Part.route m n) : m.cell? = n.cell? := by
  have hgrid : m.grid = n.grid := h .grid (by decide)
  have hposition : m.pointer.position = n.pointer.position := h .position (by decide)
  rw [cell?, cell?, hgrid, hposition]

/-- On a grid without decisions two machines with one route have one route after a step, if both are
    running then. -/
theorem agree_next (h : Agree Part.route m n) (hg : m.grid.Undeciding)
    (hm : m.next.status = .running) (hn : n.next.status = .running) :
    Agree Part.route m.next n.next := by
  obtain ⟨-, cell, hc, hmove⟩ := next_of_next_running hm
  obtain ⟨-, cell', hc', hmove'⟩ := next_of_next_running hn
  -- Both are at the same cell of the grid, which is neither a skip on zero nor a jump.
  obtain rfl : cell = cell' := Option.some.inj (by rw [← hc, ← hc', h.cell?_eq])
  obtain ⟨row, hrow, hcell⟩ := Grid.mem_of_lookup hc
  obtain ⟨hskip, hjump⟩ := hg row hrow cell hcell
  rw [hmove hjump, hmove' hjump]
  have hcounted : Agree Part.route m.counted n.counted :=
    related_counted (shares_agree (by decide)) h
  exact related_move (shares_agree (by decide)) agree_pace (agree_execute hcounted hskip hjump) _

/-! ## Runs -/

/-- The place and the cell that the next step executes, if the machine is running. -/
def visited? (m : Machine) : Option (Point × Cell) :=
  if m.status = .running then m.cell?.map fun cell => (m.pointer.position, cell) else none

/-- A machine that is running after some steps was running before the last of them. -/
theorem running_of_after_succ {k : Nat} (h : (m.after (k + 1)).status = .running) :
    (m.after k).status = .running := by
  rw [after_succ] at h
  exact (next_of_next_running h).1

/-- A machine that is running has been running before. -/
theorem running_of_le {j k : Nat} (hjk : j ≤ k)
    (h : (m.after k).status = .running) : (m.after j).status = .running := by
  -- By induction on the number of steps in between, backwards.
  induction hjk with
  | refl => exact h
  | step _ ih => exact ih (running_of_after_succ h)

/-- On a grid without decisions two machines with one route visit the same cells, as long as both
    are running. -/
theorem agree_after (h : Agree Part.route m n) (hg : m.grid.Undeciding) {k : Nat}
    (hm : (m.after k).status = .running) (hn : (n.after k).status = .running) :
    Agree Part.route (m.after k) (n.after k) ∧ m.events visited? k = n.events visited? k := by
  -- By induction on the steps; the cell of the last one is known from the route before it.
  induction k with
  | zero => exact ⟨h, rfl⟩
  | succ k ih =>
    have hm' := running_of_after_succ hm
    have hn' := running_of_after_succ hn
    obtain ⟨hagree, hevents⟩ := ih hm' hn'
    have hvisited : (m.after k).visited? = (n.after k).visited? := by
      have hposition : (m.after k).pointer.position = (n.after k).pointer.position :=
        hagree .position (by decide)
      rw [visited?, visited?, if_pos hm', if_pos hn', hagree.cell?_eq, hposition]
    rw [after_succ] at hm hn
    rw [after_succ, after_succ, events_succ, events_succ, hevents, hvisited]
    exact ⟨agree_next hagree (by rwa [grid_after]) hm hn, rfl⟩

/-- Two machines are started on one grid with one seed, and with any two stacks, inputs and outputs.
    If no cell of the grid is a skip on zero or a jump, then after any number of steps after which
    both are running they have executed the same cells at the same places in the same order, and
    have the same pointer, the same state of the generator and the same number of steps, and are
    between quotes both or neither. -/
theorem same_route_from_seed (hg : g.Undeciding) (seed : UInt64) (values values' : List Binary64)
    (input input' : Input) (output output' : Output) (k : Nat) :
    let m := start g values seed input output
    let n := start g values' seed input' output'
    (m.after k).status = .running → (n.after k).status = .running →
      m.events visited? k = n.events visited? k ∧
      (m.after k).pointer = (n.after k).pointer ∧
      (m.after k).quoting = (n.after k).quoting ∧
      (m.after k).steps = (n.after k).steps ∧
      (m.after k).generator = (n.after k).generator := by
  intro m n hm hn
  -- The grid and the seed are the same, and everything else of the route is fixed at the start.
  have hstart : Agree Part.route m n := by
    intro p hp
    simp only [Part.route, List.mem_cons, List.not_mem_nil, or_false] at hp
    rcases hp with rfl | rfl | rfl | rfl | rfl | rfl | rfl <;> rfl
  obtain ⟨hagree, hevents⟩ := agree_after hstart hg hm hn
  have hposition : (m.after k).pointer.position = (n.after k).pointer.position :=
    hagree .position (by decide)
  have hheading : (m.after k).pointer.heading = (n.after k).pointer.heading :=
    hagree .heading (by decide)
  exact ⟨hevents, Pointer.ext hposition hheading, hagree .quoting (by decide),
    hagree .steps (by decide), hagree .generator (by decide)⟩

/-- Two stacks and two inputs: a value is read into a stack of its own and goes to the register, and
    the value below it is put over the cell that comes next, which is a random mirror all the same.
    -/
theorem same_route_of_distinct_stacks :
    let g := Grid.ofRows [['1', '[', 'i', ']', '&', '8', '0', 'p', 'x'].map Cell.ofChar]
    let m := start g [.ofNat 7] 0 (.ofBytes [0x35]) {}
    let n := start g [.nan, .infinite true] 0 (.ofBytes [0x38]) { capacity := some 0 }
    (m.after 9).stack ≠ (n.after 9).stack ∧ (m.after 9).scratch ≠ (n.after 9).scratch ∧
      m.events visited? 9 = n.events visited? 9 ∧ (m.after 9).pointer = (n.after 9).pointer := by
  intro g m n
  have hg : g.Undeciding := by decide +kernel
  have hm : (m.after 9).status = .running := by decide +kernel
  have hn : (n.after 9).status = .running := by decide +kernel
  obtain ⟨hevents, hpointer, -, -, -⟩ := same_route_from_seed hg 0 _ _ _ _ _ _ 9 hm hn
  exact ⟨by decide +kernel, by decide +kernel, hevents, hpointer⟩

end Machine

end Fish
