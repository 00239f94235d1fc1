import Fish.Proofs.Budgets
import Fish.Proofs.Lockstep
import Fish.Proofs.OutputTrace
import Mathlib.Data.Nat.Order.Lemmas
import Mathlib.Order.Monotone.Basic

/-!
# Restricted outputs

An output may have room for a limited number of bytes only, and it may be unable to flush. A machine
with such an output takes the same steps as one whose output takes everything, up to the first write
for which there is no room, and this write is a fault. If all writes fit, then only the flush at the
end of the program can make a difference: it fails, and what is a halt otherwise is a fault.

No instruction sees the room that is left or whether a flush would fail, but for those that write
and for the halt. So the two machines are in lock step: restricting the output before a step or
after it is the same.

Main lemmas:

* `obey_commutes`              instructions that do not see how the output is restricted
* `step_restrict`              one step of both machines, if what is written fits
* `runFor_restrict`            any number of steps of both
* `runFor_restrict_of_excess`  what the restricted one comes to if not all fits
* `runs_agree_until_refusal`   the two cases together, from the start of a program
-/

namespace Fish

namespace Output

/-- The number of bytes that were written. -/
def size (out : Output) : Nat := out.text.utf8ByteSize

/-- The output takes everything, and can be flushed. -/
structure Free (out : Output) : Prop where
  capacity : out.capacity = none
  flushDefect : out.flushDefect = none

/-- The output with room for a limited number of bytes, and with a defect of flushing or none. -/
def restrict (limit : Nat) (defect : Option String) (out : Output) : Output :=
  { out with capacity := some limit, flushDefect := defect }

variable {out : Output} {limit : Nat} {defect : Option String} {s : String}

/-- An output that takes everything has room for every text. -/
theorem Free.hasRoom (h : out.Free) (s : String) : out.hasRoom s = true := by
  rw [Output.hasRoom, h.capacity]

/-- A restricted output has room up to the limit. -/
theorem hasRoom_restrict :
    (out.restrict limit defect).hasRoom s = true ↔ out.size + s.utf8ByteSize ≤ limit :=
  decide_eq_true_iff

/-- A text that is written adds its own size. -/
theorem size_append (out : Output) (s : String) :
    ({ out with text := out.text ++ s } : Output).size = out.size + s.utf8ByteSize :=
  String.utf8ByteSize_append ..

end Output

/-- An instruction that has to do with the output writes, or halts. -/
theorem Instruction.writes_of_output {i : Instruction} (h : Part.output ∈ i.touches) :
    Part.output ∈ i.writes ∨ Part.status ∈ i.writes := by
  cases i with
  | halt => exact .inr (.head _)
  | jump | peek => simp [touches] at h
  | _ => exact .inl h

namespace Machine

open Fish.Action (Commutes)

/-- The machine with a restricted output. -/
def restrict (limit : Nat) (defect : Option String) (m : Machine) : Machine :=
  { m with output := m.output.restrict limit defect }

/-- What a result becomes if the output is restricted and all writes fit: a halt is a fault now if
    the output cannot be flushed, and everything else is the same. -/
def restrictResult (limit : Nat) (defect : Option String) :
    EStateM.Result Fault Machine Status → EStateM.Result Fault Machine Status
  | .ok .halted n =>
    match defect with
    | none => .ok .halted (n.restrict limit defect)
    | some reason => .error (.io reason) { n.restrict limit defect with status := .faulted .io }
  | .ok status n => .ok status (n.restrict limit defect)
  | .error fault n => .error fault (n.restrict limit defect)

variable {m n : Machine} {cell : Cell} {limit k budget : Nat} {defect : Option String}
  {fault : Fault} {rest : List Binary64} {text : String}

/-! ## Instructions that do not see the restriction -/

/-- Only the output is not the same in a machine whose output is restricted. -/
theorem shares_restrict {p : Part} (ho : p ≠ .output) :
    Shares (fun m n => n = m.restrict limit defect) p where
  same {m n} h := by
    rw [h]
    cases p <;> first | rfl | contradiction
  put {m n} c h := by
    rw [h]
    cases p <;> first | rfl | contradiction

/-- An instruction that neither writes nor halts does not see how the output is restricted. -/
theorem obey_commutes (ho : Part.output ∉ cell.instruction.writes)
    (hs : Part.status ∉ cell.instruction.writes) :
    Commutes (restrict limit defect) (obey cell) := by
  -- The restriction is a relation that shares all parts but one, and the instruction does not touch
  -- that one.
  apply Action.Respects.commutes
  apply obey_respects
  intro p hp
  apply shares_restrict
  rintro rfl
  exact (Instruction.writes_of_output hp).elim ho hs

/-! ## Cells -/

/-- A move does not see the output. -/
theorem move_restrict (m : Machine) (motion : Motion) :
    (m.restrict limit defect).move motion = (m.move motion).restrict limit defect := by
  cases motion with
  | stay => rfl
  | advance =>
    simp only [move]
    show (if m.leaping then _ else _) = restrict limit defect (if m.leaping then _ else _)
    split <;> rfl

/-- A write that fits does the same with a restricted output. -/
theorem execute_restrict_of_writing (hwrites : Part.output ∈ m.writes cell) (hfree : m.output.Free)
    (hfits : (execute cell m).state.output.size ≤ limit) :
    execute cell (m.restrict limit defect) =
      (execute cell m).mapState (restrict limit defect) := by
  obtain ⟨hobey, hwrites⟩ := obeying_of_mem_writes hwrites nofun
  obtain ⟨f, -, htext⟩ := exists_text (Instruction.eq_write_of_output hwrites)
  have hplain := execute_of_obeying (m := m) hobey
  have hrestrict := execute_of_obeying (m := m.restrict limit defect) hobey
  rw [htext, thenAdvance_apply, popAndWrite_apply] at hplain hrestrict
  have hstack : (m.restrict limit defect).stack.values = m.stack.values := rfl
  rw [hstack] at hrestrict
  cases hvalues : m.stack.values with
  | nil =>
    rw [hvalues] at hplain hrestrict
    rw [hplain, hrestrict]
    rfl
  | cons value rest =>
    simp only [hvalues, hfree.hasRoom, if_true] at hplain
    -- The output that is left is what was written before and the text, and all this fits.
    rw [hplain, EStateM.Result.state_ok, Output.size_append] at hfits
    have hroom : (m.restrict limit defect).output.hasRoom (f value) = true :=
      Output.hasRoom_restrict.2 hfits
    simp only [hvalues, hroom, if_true] at hrestrict
    rw [hplain, hrestrict]
    rfl

/-- A cell that does not halt does the same with a restricted output, if what it writes fits. -/
theorem execute_restrict (defect : Option String) (hs : Part.status ∉ m.writes cell)
    (hfree : m.output.Free) (hfits : (execute cell m).state.output.size ≤ limit) :
    execute cell (m.restrict limit defect) =
      (execute cell m).mapState (restrict limit defect) := by
  -- A cell that does not write does not see the output at all.
  by_cases ho : Part.output ∈ m.writes cell
  · exact execute_restrict_of_writing ho hfree hfits
  · rcases obeying_or_quoting m cell with hobey | ⟨hq, hc⟩
    · rw [writes_of_obeying hobey] at ho hs
      rw [execute_of_obeying hobey, execute_of_obeying (m := m.restrict limit defect) hobey]
      exact obey_commutes ho hs m
    · rw [execute_of_quoting hq hc, execute_of_quoting (m := m.restrict limit defect) hq hc]
      rfl

/-! ## Steps -/

/-- At the end of a program it depends on the output alone how the step goes. -/
theorem exists_executeNext_of_atEnd (hend : m.AtEnd) :
    ∃ extra, ∀ out : Output, executeNext { m with output := out } =
      match out.flushDefect with
      | none => .ok .stay { m with output := out, status := .halted, steps := m.steps + extra }
      | some reason =>
        .error (.io reason)
          { m with output := out, status := .halted, steps := m.steps + extra } := by
  -- At a halt the cell is counted, and without a cell there is none to count.
  rcases hend with hc | ⟨hq, hhalt⟩
  · exact ⟨0, fun out => executeNext_of_no_cell (m := { m with output := out }) hc⟩
  · obtain ⟨cell, hc, hi⟩ := Option.map_eq_some_iff.1 hhalt
    refine ⟨1, fun out => ?_⟩
    have hnext := executeNext_of_obeying (m := { m with output := out }) hc (.inl hq)
    rw [hnext, obey, hi]
    simp only [Action.bind_apply, halt_apply, output_counted]
    cases out.flushDefect <;> rfl

/-- At the end of a program the flush decides what comes of the step. -/
theorem step_restrict_of_atEnd (hrun : m.status = .running) (hfree : m.output.Free)
    (hend : m.AtEnd) : (m.restrict limit defect).step = restrictResult limit defect m.step := by
  obtain ⟨extra, hnext⟩ := exists_executeNext_of_atEnd hend
  have hplain := hnext m.output
  have hrestrict := hnext (m.output.restrict limit defect)
  rw [hfree.flushDefect] at hplain
  rw [step_of_ok hrun hplain]
  cases defect with
  | none => exact step_of_ok (m := m.restrict limit none) hrun hrestrict
  | some reason => exact step_of_error (m := m.restrict limit (some reason)) hrun hrestrict

/-- A program that is not at its end has a cell that does not halt. -/
theorem exists_cell_of_not_atEnd (hend : ¬m.AtEnd) :
    ∃ cell, m.cell? = some cell ∧ Part.status ∉ m.writes cell := by
  cases hc : m.cell? with
  | none => exact absurd (.inl hc) hend
  | some cell =>
    refine ⟨cell, rfl, fun hwrites => hend (.inr ?_)⟩
    obtain ⟨hobey, hwrites⟩ := obeying_of_mem_writes hwrites nofun
    have hi := Instruction.eq_halt_of_status hwrites
    rw [hi] at hobey
    exact ⟨hobey.resolve_right nofun, by rw [hc, Option.map_some, hi]⟩

/-- A step that does not end the program does the same with a restricted output, if what is written
    after it fits. -/
theorem step_restrict_of_cell (hrun : m.status = .running) (hfree : m.output.Free)
    (hc : m.cell? = some cell) (hs : Part.status ∉ m.writes cell)
    (hfits : m.next.output.size ≤ limit) :
    (m.restrict limit defect).step = restrictResult limit defect m.step := by
  -- The move to the next cell does not change the output.
  have houtput : m.next.output = (execute cell m.counted).state.output := by
    refine next_of_cell (P := fun n => n.output = (execute cell m.counted).state.output) hrun hc
      rfl (fun n motion hn => ?_) fun n status hn => hn
    have hmove := move_keeps (p := .output) nofun nofun n motion
    exact Eq.trans hmove hn
  rw [houtput] at hfits
  have hstatus : (execute cell m.counted).state.status = m.status :=
    execute_keeps (m := m.counted) hs
  -- The cell does the same in both machines, so the two steps differ by the restriction only.
  have hsame := execute_restrict (m := m.counted) defect hs hfree hfits
  have hplain := executeNext_of_cell hc
  have hrestrict := executeNext_of_cell (m := m.restrict limit defect) hc
  have hcounted : (m.restrict limit defect).counted = m.counted.restrict limit defect := rfl
  have hrunning : (m.restrict limit defect).status = .running := hrun
  rw [hcounted, hsame] at hrestrict
  cases he : execute cell m.counted with
  -- The machine is still running, and the restriction is not seen by the move.
  | ok motion n =>
    rw [he] at hplain hrestrict hstatus
    have hn : n.status = .running := hstatus.trans hrun
    rw [step_of_ok hrun hplain, step_of_ok hrunning hrestrict, move_restrict, status_move, hn]
    exact congrArg (EStateM.Result.ok · _) ((status_move n motion).trans hn)
  | error fault n =>
    rw [he] at hplain hrestrict
    rw [step_of_error hrun hplain, step_of_error hrunning hrestrict]
    rfl

/-- A step does the same with a restricted output, the flush at the end aside, if what is written
    after it fits. -/
theorem step_restrict (defect : Option String) (hrun : m.status = .running)
    (hfree : m.output.Free) (hfits : m.next.output.size ≤ limit) :
    (m.restrict limit defect).step = restrictResult limit defect m.step := by
  by_cases hend : m.AtEnd
  · exact step_restrict_of_atEnd hrun hfree hend
  · obtain ⟨cell, hc, hs⟩ := exists_cell_of_not_atEnd hend
    exact step_restrict_of_cell hrun hfree hc hs hfits

/-! ## Any number of steps -/

/-- A step does not restrict the output. -/
theorem free_next (h : m.output.Free) : m.next.output.Free := by
  rw [output_next]
  exact ⟨h.capacity, h.flushDefect⟩

/-- Nor does it take back what was written. -/
theorem size_le_next (m : Machine) : m.output.size ≤ m.next.output.size := by
  rw [output_next, Output.size_append]
  exact Nat.le_add_right ..

/-- What was written is never taken back. -/
theorem monotone_size (m : Machine) : Monotone fun k => (m.after k).output.size :=
  monotone_nat_of_le_succ fun k => by
    rw [after_succ]
    exact size_le_next _

/-- If all that is written fits, then a limited run does the same with a restricted output, the
    flush at the end aside. -/
theorem runFor_restrict (hrun : m.status = .running) (hfree : m.output.Free)
    (hfits : (m.after k).output.size ≤ limit) :
    (m.restrict limit defect).runFor k = restrictResult limit defect (m.runFor k) := by
  -- By induction on the budget: both machines take the same first step, and what is written after
  -- it fits as well.
  induction k generalizing m with
  | zero =>
    rw [runFor_zero, runFor_zero, hrun]
    exact congrArg (EStateM.Result.ok · _) hrun
  | succ k ih =>
    have hfirst : m.next.output.size ≤ limit :=
      (monotone_size m (Nat.le_add_left 1 k)).trans hfits
    have hsame := step_restrict defect hrun hfree hfirst
    have hrestrict : (m.restrict limit defect).status = .running := hrun
    have houtcome := step_outcome hrun
    cases hstep : m.step with
    | error fault n =>
      rw [hstep] at hsame
      rw [runFor_of_step_error hrun hstep, runFor_of_step_error hrestrict hsame]
      rfl
    | ok status n =>
      have hn := next_of_step_ok hstep
      rw [hstep] at hsame houtcome
      rw [runFor_of_step_ok hrun hstep]
      cases houtcome with
      | running hrun' =>
        -- Both have taken the same step, and go on.
        rw [runFor_of_step_ok hrestrict hsame]
        exact ih hrun' (hn ▸ free_next hfree) (hn ▸ hfits)
      | halted hhalt =>
        -- Both have come to the end, and the flush decides what comes of it.
        have hstop : n.status ≠ .running := by simp [hhalt]
        rw [runFor_of_not_running hstop, hhalt]
        cases defect with
        | none =>
          rw [runFor_of_step_ok hrestrict hsame, runFor_of_not_running (m := n.restrict ..) hstop]
          exact congrArg (EStateM.Result.ok · _) hhalt
        | some reason => exact runFor_of_step_error hrestrict hsame k

/-- As long as all that is written fits, and the machine is running, the machine with the restricted
    output is the same machine but for the restriction. -/
theorem after_restrict (defect : Option String) (hrun : m.status = .running)
    (hfree : m.output.Free) (hfits : (m.after k).output.size ≤ limit)
    (hstill : (m.after k).status = .running) :
    (m.restrict limit defect).after k = (m.after k).restrict limit defect := by
  rw [← state_runFor, runFor_restrict hrun hfree hfits, runFor_of_running hstill]
  rfl

/-! ## The first write that does not fit -/

/-- Among the steps after which more was written than fits there is a first one, and it writes. -/
theorem exists_excess (hzero : m.output.size ≤ limit) (hexcess : limit < (m.after k).output.size) :
    ∃ j < k, ∃ text, (m.after j).written? = some text ∧
      (∀ i ≤ j, (m.after i).output.size ≤ limit) ∧
      limit < (m.after j).output.size + text.utf8ByteSize := by
  -- The size only grows, so there is a last step before which all fits.
  obtain ⟨j, hj, hnext⟩ := Nat.exists_not_and_succ_of_not_zero_of_exists
    (p := fun i => limit < (m.after i).output.size) hzero.not_gt ⟨k, hexcess⟩
  have hfits (i : Nat) (hi : i ≤ j) : (m.after i).output.size ≤ limit :=
    (monotone_size m hi).trans (not_lt.1 hj)
  have hlt : j < k := by
    by_contra hge
    exact absurd hexcess (hfits k (not_lt.1 hge)).not_gt
  -- A step that does not write would not have changed how much was written.
  rw [after_succ, output_next, Output.size_append] at hnext
  cases hwritten : (m.after j).written? with
  | none =>
    rw [hwritten] at hnext
    exact absurd hnext hj
  | some text =>
    rw [hwritten] at hnext
    exact ⟨j, hlt, text, hwritten, hfits, hnext⟩

/-- A write that does not fit is a fault of the machine with the restricted output. -/
theorem step_restrict_of_excess (defect : Option String) (hwritten : m.written? = some text)
    (hexcess : limit < m.output.size + text.utf8ByteSize) :
    ∃ value rest, m.stack.values = value :: rest ∧
      (m.restrict limit defect).step =
        .error (.io "sink full")
          { (m.counted.withValues rest).restrict limit defect with status := .faulted .io } := by
  obtain ⟨hrun, hq, cell, value, rest, -, hc, hvalues, htext, -⟩ := exists_write hwritten
  have hfull : (m.restrict limit defect).output.hasRoom text = false := by
    rw [← Bool.not_eq_true]
    exact fun hroom => absurd hexcess (Output.hasRoom_restrict.1 hroom).not_gt
  exact ⟨value, rest, hvalues,
    step_of_refused (m := m.restrict limit defect) hrun hq hc hvalues htext hfull⟩

/-- If not all that is written fits, then a limited run with a restricted output ends at the first
    write that does not fit. -/
theorem runFor_restrict_of_excess (hrun : m.status = .running) (hfree : m.output.Free)
    (hzero : m.output.size ≤ limit) (hexcess : limit < (m.after budget).output.size) :
    ∃ j < budget, ∃ text value rest, (m.after j).written? = some text ∧
      (m.after j).stack.values = value :: rest ∧
      (∀ i ≤ j, (m.after i).output.size ≤ limit) ∧
      limit < (m.after j).output.size + text.utf8ByteSize ∧
      (m.restrict limit defect).runFor budget =
        .error (.io "sink full")
          { ((m.after j).counted.withValues rest).restrict limit defect with
            status := .faulted .io } := by
  obtain ⟨j, hlt, text, hwritten, hfits, htext⟩ := exists_excess hzero hexcess
  obtain ⟨value, rest, hvalues, hstep⟩ := step_restrict_of_excess defect hwritten htext
  refine ⟨j, hlt, text, value, rest, hwritten, hvalues, hfits, htext, ?_⟩
  -- Until then the two machines are in lock step.
  have hstill := (exists_write hwritten).1
  have hsame := after_restrict defect hrun hfree (hfits j le_rfl) hstill
  -- The step after that is refused, and the rest of the budget cannot be spent.
  have hrefused := runFor_succ j (m.restrict limit defect)
  rw [hsame, if_pos (show ((m.after j).restrict limit defect).status = .running from hstill),
    hstep] at hrefused
  have hstop : ((m.restrict limit defect).after (j + 1)).status ≠ .running := by
    rw [← state_runFor, hrefused]
    nofun
  rw [runFor_of_stopped hstop hlt, hrefused]

/-! ## From the start of a program -/

/-- A program is run twice with the same budget, once with an output that takes everything and can
    be flushed, and once with an output that has room for a limited number of bytes and may be
    unable to flush. If what the first run writes fits, then the second one has the same result and
    leaves the same machine, but that a halt is a fault if the flush fails. If it does not fit, then
    the second run ends at the first write that would exceed the limit: its output is what was
    written before, and the instruction that has been refused is counted, has taken its value, and
    has kept the pointer. -/
theorem runs_agree_until_refusal (grid : Grid) (values : List Binary64) (seed : UInt64)
    (input : Input) (limit : Nat) (defect : Option String) (budget : Nat) :
    let free := start grid values seed input {}
    let restricted := start grid values seed input { capacity := some limit, flushDefect := defect }
    ((free.runFor budget).state.output.size ≤ limit →
      restricted.runFor budget = restrictResult limit defect (free.runFor budget)) ∧
    (limit < (free.runFor budget).state.output.size →
      ∃ j < budget, ∃ text value rest, (free.after j).written? = some text ∧
        (free.after j).stack.values = value :: rest ∧
        (∀ i ≤ j, (free.after i).output.size ≤ limit) ∧
        limit < (free.after j).output.size + text.utf8ByteSize ∧
        restricted.runFor budget =
          .error (.io "sink full")
            { ((free.after j).counted.withValues rest).restrict limit defect with
              status := .faulted .io }) := by
  intro free restricted
  have hrestricted : restricted = free.restrict limit defect := rfl
  have hfree : free.output.Free := ⟨rfl, rfl⟩
  rw [state_runFor, hrestricted]
  exact ⟨runFor_restrict rfl hfree, runFor_restrict_of_excess rfl hfree (Nat.zero_le limit)⟩

/-- Two numbers of one digit, and a halt: room for two bytes is enough but for the flush, and room
    for one byte is not. -/
theorem runs_agree_until_refusal_of_two_digits :
    let grid := Grid.ofRows [[.ofChar 'n', .ofChar 'n', .ofChar ';']]
    let runOn (out : Output) := (start grid [.ofNat 7, .ofNat 7] 0 {} out).runFor 3
    runOn { capacity := some 2, flushDefect := some "closed" } =
      restrictResult 2 (some "closed") (runOn {}) ∧
    ∃ n, runOn { capacity := some 1 } = .error (.io "sink full") n ∧ n.output.size ≤ 1 := by
  intro grid runOn
  have hsize : (runOn {}).state.output.size = 2 := by decide +kernel
  constructor
  · exact (runs_agree_until_refusal grid _ 0 {} 2 (some "closed") 3).1 hsize.le
  · have hexcess : 1 < (runOn {}).state.output.size := Nat.lt_of_lt_of_eq Nat.one_lt_two hsize.symm
    obtain ⟨j, -, text, value, rest, -, -, hfits, -, hrun⟩ :=
      (runs_agree_until_refusal grid _ 0 {} 1 none 3).2 hexcess
    exact ⟨_, hrun, hfits j le_rfl⟩

end Machine

end Fish
