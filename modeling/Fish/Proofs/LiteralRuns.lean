import Fish.Proofs.Soundness
import Fish.Proofs.Travel
import Mathlib.Data.List.TakeWhile

/-!
# Literal runs

Between quotes a machine only pushes the characters of the cells that it meets, whatever these would
do outside: nothing there can turn the pointer, fault or halt. So it stays on the line on which the
opening quote lies, and if no other quote comes first it comes back to that one. This is the
invariant `OnQuotedLine`, from which follows that every literal run ends, and what it leaves.

Main lemmas:

* `step_of_literal`, `step_of_quote`   a cell between quotes, and a quote
* `after_eq_pushed`                    a run over cells that are no quotes pushes them
* `OnQuotedLine.next`                  while a machine is quoting there is a quote on its line
* `History.literal_ends`               every literal run ends at the first quote that it meets
-/

namespace Fish

/-- What a cell pushes between quotes: the code point of its character. -/
def Cell.code (cell : Cell) : Binary64 := .ofNat cell.glyph.toNat

/-- Only a quote begins or ends a literal run. -/
theorem Instruction.eq_quote_of_quoting {i : Instruction} (h : Part.quoting ∈ i.writes) :
    i = .quote := by
  cases i with
  | quote => rfl
  | mirror mirror => cases mirror <;> simp [writes] at h
  | stack command => cases command <;> simp [writes] at h
  | _ => simp [writes] at h

namespace Machine

variable {g : Grid} {m n : Machine} {cell : Cell} {es : List Exchange}

/-! ## One step between quotes -/

/-- Between quotes a cell pushes its character, and the pointer takes a pace. -/
theorem step_of_literal (hrun : m.status = .running) (hq : m.quoting = true)
    (hl : m.leaping = false) (hc : m.cell? = some cell) (hi : cell.instruction ≠ .quote) :
    m.step = .ok .running { m.withValues (cell.code :: m.stack.values) with
      pointer := m.pointer.advance m.grid.bounds
      steps := m.steps + 1 } := by
  have hnext := (executeNext_of_cell hc).trans (execute_of_quoting (m := m.counted) hq hi)
  exact step_of_advance hrun hnext hrun hl

/-- A quote begins or ends a literal run, and the pointer takes a pace. -/
theorem step_of_quote (hrun : m.status = .running) (hl : m.leaping = false)
    (hc : m.cell? = some cell) (hi : cell.instruction = .quote) :
    m.step = .ok .running { m with
      quoting := !m.quoting
      pointer := m.pointer.advance m.grid.bounds
      steps := m.steps + 1 } := by
  have hnext : executeNext m = .ok .advance { m.counted with quoting := !m.quoting } := by
    rw [executeNext_of_obeying hc (.inr hi), obey, hi]
    rfl
  exact step_of_advance hrun hnext hrun hl

/-! ## A run over cells that are no quotes -/

/-- The machine after a literal run over the given cells: their characters are on the stack, the
    last one on top, and the pointer has taken a pace for each of them. -/
def pushed (m : Machine) (cells : List Cell) : Machine :=
  { m.withValues ((cells.map Cell.code).reverse ++ m.stack.values) with
    pointer := m.pointer.paced m.grid.bounds cells.length
    steps := m.steps + cells.length }

/-- A run over no cells changes nothing. -/
theorem pushed_nil (h : m.pointer.position.Inside m.grid.bounds) : m.pushed [] = m := by
  have hpointer : m.pointer.paced m.grid.bounds 0 = m.pointer := Pointer.paced_zero h
  simp [pushed, withValues, hpointer, stack]

/-- The pointer shows the cell that was as many paces ahead as it has taken. -/
theorem cell?_pushed (cells : List Cell) :
    (m.pushed cells).cell? = m.grid.lookup (m.pointer.reach cells.length) :=
  Grid.lookup_wrap ..

/-- One more cell that is no quote is pushed like the others. -/
theorem step_pushed (hrun : m.status = .running) (hq : m.quoting = true)
    (hl : m.leaping = false) (hgrid : m.grid.isEmpty = false) {cells : List Cell}
    (hc : m.grid.lookup (m.pointer.reach cells.length) = some cell)
    (hi : cell.instruction ≠ .quote) :
    (m.pushed cells).step = .ok .running (m.pushed (cells ++ [cell])) := by
  obtain ⟨hx, hy⟩ := Grid.bounds_pos hgrid
  have hpace := Pointer.advance_paced m.pointer hx hy cells.length
  have hstep := step_of_literal (m := m.pushed cells) hrun hq hl ((cell?_pushed cells).trans hc) hi
  rw [hstep]
  simp [pushed, withValues, stack, hpace, Nat.add_assoc]

/-- A machine that meets no quotes for a number of cells pushes those cells. -/
theorem after_eq_pushed (hrun : m.status = .running) (hq : m.quoting = true)
    (hl : m.leaping = false) (hinside : m.pointer.position.Inside m.grid.bounds) {k : Nat}
    (hk : k ≤ m.grid.extent m.pointer.heading)
    (hcells : ∀ cell ∈ (m.grid.ahead m.pointer).take k, cell.instruction ≠ .quote) :
    m.after k = m.pushed ((m.grid.ahead m.pointer).take k) := by
  have hgrid := Grid.isEmpty_of_inside hinside
  -- The induction is on the number of cells, and each step adds the one that is met last.
  induction k with
  | zero => rw [List.take_zero, pushed_nil hinside, after_zero]
  | succ k ih =>
    -- The cell that the last step meets is the one `k` paces ahead.
    obtain ⟨cell, hc⟩ :=
      Option.isSome_iff_exists.1 (Grid.lookup_reach_isSome (p := m.pointer) hgrid k)
    have hget : (m.grid.ahead m.pointer)[k]? = some cell :=
      (Grid.getElem?_ahead hgrid hk).trans hc
    have htake : (m.grid.ahead m.pointer).take (k + 1) =
        (m.grid.ahead m.pointer).take k ++ [cell] := by
      rw [List.take_add_one, hget]
      rfl
    have hlength : ((m.grid.ahead m.pointer).take k).length = k := by
      rw [List.length_take, Grid.length_ahead hgrid]
      omega
    rw [htake] at hcells ⊢
    have hbefore := ih (Nat.le_of_lt hk) fun c hmem => hcells c (List.mem_append_left _ hmem)
    have hi : cell.instruction ≠ .quote := hcells cell List.mem_concat_self
    rw [← hlength] at hc
    have hstep := step_pushed hrun hq hl hgrid hc hi
    rw [after_succ, hbefore, next, hstep, EStateM.Result.state_ok]

/-! ## The quote on the line -/

/-- If the machine is quoting there is a quote on the line that its pointer travels along. -/
def OnQuotedLine (m : Machine) : Prop :=
  m.quoting = true → ∃ cell ∈ m.grid.line m.pointer, cell.instruction = .quote

/-- A pace does not leave the line. -/
theorem line_advance {p : Pointer} (h : p.position.Inside g.bounds) :
    g.line (p.advance g.bounds) = g.line p := by
  rw [Pointer.advance_eq_paced h, Grid.line_paced h]

/-- Outside quotes a step over a cell that is no quote begins no literal run. -/
theorem quoting_next (hq : m.quoting = false) (hc : m.cell? = some cell)
    (hi : cell.instruction ≠ .quote) : m.next.quoting = false := by
  -- The cell is executed as an instruction, and only a quote writes this part of the machine.
  have hkeep : m.next.quoting = m.quoting := by
    refine next_keeps (p := .quoting) (fun c hcell hwrites => ?_) nofun nofun nofun nofun
    obtain rfl := Option.some.inj (hc.symm.trans hcell)
    exact hi (Instruction.eq_quote_of_quoting (obeying_of_mem_writes hwrites nofun).2)
  exact hkeep.trans hq

/-- A step keeps the quote on the line: between quotes the line stays the same, and the quote that
    begins a literal run is on it. -/
theorem OnQuotedLine.next (h : OnQuotedLine m) (hsound : Sound g m) : OnQuotedLine m.next := by
  -- A machine that is not running or has no cell keeps its pointer and its mode.
  by_cases hrun : m.status = .running
  · cases hc : m.cell? with
    | none =>
      obtain ⟨status, -, hnext⟩ := next_of_no_cell hrun hc
      rw [hnext]
      exact h
    | some cell =>
      have hgrid := isEmpty_of_cell hc
      have hinside : m.pointer.position.Inside m.grid.bounds := by
        rw [hsound.grid_eq] at hgrid ⊢
        exact hsound.inside hgrid
      have hline := line_advance hinside
      by_cases hi : cell.instruction = .quote
      · -- The quote itself is on the line, whether it begins a run or ends one.
        rw [Machine.next, step_of_quote hrun hsound.landed hc hi]
        intro _
        exact ⟨cell, hline ▸ Grid.mem_line hinside hc, hi⟩
      · cases hq : m.quoting with
        | true =>
          rw [Machine.next, step_of_literal hrun hq hsound.landed hc hi]
          intro _
          obtain ⟨quote, hmem, hquote⟩ := h hq
          exact ⟨quote, hline ▸ hmem, hquote⟩
        | false =>
          -- No literal run begins here, so there is nothing to show.
          intro hnext
          rw [quoting_next hq hc hi] at hnext
          cases hnext
  · rw [next_of_not_running hrun]
    exact h

/-- Whatever calls were made since the start, a machine that is quoting has a quote on its line. -/
theorem History.onQuotedLine {values : List Binary64} {seed : UInt64} {input : Input}
    {output : Output} (h : History (start g values seed input output) es m) : OnQuotedLine m := by
  -- That the pointer is inside is part of the invariant, since without it a pace may leave the
  -- line.
  have hboth : Sound g m ∧ OnQuotedLine m :=
    h.invariant (P := fun n => Sound g n ∧ OnQuotedLine n)
      (fun _ hn => ⟨hn.1.next, hn.2.next hn.1⟩) ⟨sound_start .., nofun⟩
  exact hboth.2

/-! ## The end of a literal run -/

/-- The cells that a pointer meets before the first quote. -/
def literalRun (g : Grid) (p : Pointer) : List Cell :=
  (g.ahead p).takeWhile (·.instruction ≠ .quote)

/-- With a quote on its line a pointer meets one after fewer cells than there are on the line. -/
theorem quote_after_literalRun {p : Pointer} (hinside : p.position.Inside g.bounds)
    (hquote : ∃ cell ∈ g.line p, cell.instruction = .quote) :
    (literalRun g p).length < (g.line p).length ∧
      ∃ cell, g.lookup (p.reach (literalRun g p).length) = some cell ∧
        cell.instruction = .quote := by
  have hgrid := Grid.isEmpty_of_inside hinside
  obtain ⟨quote, hmem, hi⟩ := hquote
  obtain ⟨k, hk, hlookup⟩ := Grid.exists_lookup_reach hinside hmem
  have hahead : quote ∈ g.ahead p :=
    List.mem_of_getElem? ((Grid.getElem?_ahead hgrid hk).trans hlookup)
  have hlength : (g.ahead p).length = (g.line p).length := by
    rw [Grid.length_ahead hgrid, Grid.length_line hinside]
  -- Not every cell ahead is taken, so a first one is left, and that is a quote.
  have hsplit : literalRun g p ++ (g.ahead p).dropWhile (·.instruction ≠ .quote) = g.ahead p :=
    List.takeWhile_append_dropWhile
  cases hrest : (g.ahead p).dropWhile (·.instruction ≠ .quote) with
  | nil =>
    have hnone := List.dropWhile_eq_nil_iff.1 hrest quote hahead
    simp [hi] at hnone
  | cons cell rest =>
    have hstop : cell.instruction = .quote := by
      have hne : (g.ahead p).dropWhile (·.instruction ≠ .quote) ≠ [] := by
        rw [hrest]
        exact List.cons_ne_nil cell rest
      have hhead := List.head_dropWhile_not _ hne
      simp only [hrest, List.head_cons, decide_eq_false_iff_not, not_not] at hhead
      exact hhead
    rw [hrest] at hsplit
    have hlt : (literalRun g p).length < (g.line p).length := by
      rw [← hlength, ← hsplit, List.length_append, List.length_cons]
      omega
    -- The first cell that is left is as many paces ahead as there are cells in the run.
    refine ⟨hlt, cell, ?_, hstop⟩
    rw [Grid.length_line hinside] at hlt
    rw [← Grid.getElem?_ahead hgrid hlt, ← hsplit, List.getElem?_append_right (Nat.le_refl _),
      Nat.sub_self, List.getElem?_cons_zero]

/-- If the pointer of a machine that is quoting is inside the grid and there is a quote on its line,
    then the machine pushes the cells up to the first quote, steps over that, and is done with
    quoting. -/
theorem after_literalRun (hrun : m.status = .running) (hq : m.quoting = true)
    (hl : m.leaping = false) (hinside : m.pointer.position.Inside m.grid.bounds)
    (hquote : ∃ cell ∈ m.grid.line m.pointer, cell.instruction = .quote) :
    let run := literalRun m.grid m.pointer
    (∀ j ≤ run.length, (m.after j).step = .ok .running (m.after (j + 1))) ∧
      m.after (run.length + 1) = { m.withValues ((run.map Cell.code).reverse ++ m.stack.values) with
        quoting := false
        pointer := m.pointer.paced m.grid.bounds (run.length + 1)
        steps := m.steps + run.length + 1 } := by
  intro run
  have hgrid := Grid.isEmpty_of_inside hinside
  obtain ⟨hx, hy⟩ := Grid.bounds_pos hgrid
  obtain ⟨hlt, cell, hc, hi⟩ := quote_after_literalRun hinside hquote
  rw [Grid.length_line hinside] at hlt
  have hlt : run.length < m.grid.extent m.pointer.heading := hlt
  have hprefix : (m.grid.ahead m.pointer).take run.length = run :=
    (List.prefix_iff_eq_take.1 (List.takeWhile_prefix _)).symm
  -- Up to the quote the machine pushes what it meets.
  have hpushed : ∀ j ≤ run.length, m.after j = m.pushed ((m.grid.ahead m.pointer).take j) := by
    intro j hj
    refine after_eq_pushed hrun hq hl hinside (by omega) fun c hmem => ?_
    have hrunmem : c ∈ run := hprefix ▸ (List.take_subset_take_left _ hj) hmem
    have hnot := List.mem_takeWhile_imp hrunmem
    simpa using hnot
  have hlast : m.after run.length = m.pushed run := by
    rw [hpushed _ (Nat.le_refl _), hprefix]
  have hpace := Pointer.advance_paced m.pointer hx hy run.length
  have hstep := step_of_quote (m := m.pushed run) hrun hl ((cell?_pushed run).trans hc) hi
  -- The next step meets the quote, which ends the run.
  have hend : m.after (run.length + 1) =
      { m.withValues ((run.map Cell.code).reverse ++ m.stack.values) with
        quoting := false
        pointer := m.pointer.paced m.grid.bounds (run.length + 1)
        steps := m.steps + run.length + 1 } := by
    rw [after_succ, hlast, next, hstep, EStateM.Result.state_ok]
    simp [pushed, withValues, hpace, hq]
  refine ⟨fun j hj => ?_, hend⟩
  have hstatus : (m.after (j + 1)).status = .running := by
    rcases Nat.lt_or_eq_of_le hj with hbefore | rfl
    · rw [hpushed (j + 1) hbefore]
      exact hrun
    · rw [hend]
      exact hrun
  -- A step that leaves a running machine has not faulted.
  rw [after_succ] at hstatus ⊢
  exact step_of_next_running hstatus

/-- A machine that was led to quoting by any calls has a quote on the row or column that its pointer
    travels along. Of the cells that the pointer meets from the present one on, wrapping around,
    fewer come before the first quote than there are on that line. The machine takes a step for each
    of them and one for the quote, none of which faults or halts; then it is running and done with
    quoting, the code points of those cells are on the active stack in the order in which they were
    met, the pointer is one pace past the quote, and apart from the count of executed cells nothing
    else has changed. -/
theorem History.literal_ends {values : List Binary64} {seed : UInt64} {input : Input}
    {output : Output} (h : History (start g values seed input output) es m)
    (hrun : m.status = .running) (hq : m.quoting = true) :
    (∃ cell ∈ g.line m.pointer, cell.instruction = .quote) ∧
    let run := literalRun g m.pointer
    run.length < (g.line m.pointer).length ∧
      (∃ cell, g.lookup (m.pointer.reach run.length) = some cell ∧ cell.instruction = .quote) ∧
      (∀ j ≤ run.length, (m.after j).step = .ok .running (m.after (j + 1))) ∧
      m.after (run.length + 1) = { m with
        quoting := false
        tower := { m.tower with
          active := { m.stack with values := (run.map Cell.code).reverse ++ m.stack.values } }
        pointer := ⟨(m.pointer.reach (run.length + 1)).wrap g.bounds, m.pointer.heading⟩
        steps := m.steps + (run.length + 1) } := by
  obtain ⟨rfl, hinside, -, hl⟩ := h.sound
  -- The quote on the line also shows that there are cells, and so a place inside.
  obtain ⟨cell, hmem, hi⟩ := h.onQuotedLine hq
  have hinside := hinside (Grid.isEmpty_of_mem_line hmem)
  have hquote : ∃ cell ∈ m.grid.line m.pointer, cell.instruction = .quote := ⟨cell, hmem, hi⟩
  obtain ⟨hsteps, hend⟩ := after_literalRun hrun hq hl hinside hquote
  obtain ⟨hlt, hfound⟩ := quote_after_literalRun hinside hquote
  exact ⟨hquote, hlt, hfound, hsteps, hend⟩

/-- A quote without another one after it: the run goes around the row, over a cell that would halt,
    and ends at the quote that began it. -/
theorem literal_ends_at_own_quote :
    let g := Grid.ofRows [[.ofChar '"', .ofChar 'a', .ofChar ';']]
    let m := (start g [] 0 {} {}).next
    History (start g [] 0 {} {}) [⟨.step, Call.resultOf some (start g [] 0 {} {}).step⟩] m ∧
      m.status = .running ∧ m.quoting = true ∧
      (m.after 3).quoting = false ∧ (m.after 3).stack.toList = [.ofNat 97, .ofNat 59] := by
  intro g m
  have h : History (start g [] 0 {} {}) [⟨.step, Call.resultOf some (start g [] 0 {} {}).step⟩] m :=
    .cons rfl .nil
  have hrun : m.status = .running := by decide +kernel
  have hq : m.quoting = true := by decide +kernel
  obtain ⟨-, -, -, -, hend⟩ := h.literal_ends hrun hq
  have hcells : literalRun g m.pointer = [.ofChar 'a', .ofChar ';'] := by decide +kernel
  rw [hcells] at hend
  have hend : m.after 3 = _ := hend
  refine ⟨h, hrun, hq, ?_, ?_⟩
  · rw [hend]
  · rw [hend]
    simp only [stack, Stack.toList]
    rfl

end Machine

end Fish
