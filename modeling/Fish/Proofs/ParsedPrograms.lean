import Fish.Proofs.CommandOutcomes
import Fish.Proofs.InputStream
import Fish.Proofs.Lifecycle
import Fish.Proofs.Soundness

/-!
# Parsed programs

A program text is read into cells, some of which mark the end of a line or of the text. These marks
divide the cells into rows and take no place in them, so every cell of a parsed grid is one that a
character makes, and none of them is a mark. A machine executes cells of its grid only, and only a
mark is an invalid instruction; hence no run of a parsed program faults with one, however it is
begun and fed, and no command ends with the exit code of that fault.

Main lemmas:

* `Grid.cells_of_parse`           the cells of a parsed grid
* `Cell.Faults.isMark`            only a mark faults as an invalid instruction
* `Machine.status_next`           without marks a step does not end in that fault
* `Arguments.exists_history`      what a command runs is a history of calls
* `parsed_never_invalid`          all of it about one program text
-/

namespace Fish

/-! ## The cells of a parsed grid -/

/-- The cell marks the end of a line or of the input. -/
def Cell.IsMark (cell : Cell) : Prop :=
  cell.instruction = .endOfLine ∨ cell.instruction = .endOfInput

/-- A text is read into the cells of its characters and the mark of its end. -/
theorem SourceText.ofChar_of_mem_cells (s : SourceText) :
    ∀ cell ∈ s.cells, cell = .ofChar cell.glyph ∨ cell = .endOfInput := by
  -- The induction follows the reading, which takes one cell after the other.
  induction s using SourceText.cells.induct with
  | case1 s hnext =>
    rw [cells_of_next?, hnext]
    exact List.forall_mem_nil _
  | case2 s c t hnext ih =>
    rw [cells_of_next?, hnext]
    refine List.forall_mem_cons.2 ⟨?_, ih⟩
    -- A character makes the cell, but for the one that stands for the end.
    unfold next? at hnext
    split at hnext
    · cases hnext
    · split at hnext
      · cases hnext
        exact .inr rfl
      · cases hnext
        exact .inl rfl
      · cases hnext
        exact .inl rfl

namespace Grid

variable {g : Grid} {p : Point} {cell : Cell}

/-- The rows of a sequence of cells consist of cells of the sequence, and of none that is a mark. -/
theorem mem_of_mem_rowsOf {cs row : List Cell} (hrow : row ∈ rowsOf cs) (hcell : cell ∈ row) :
    cell ∈ cs ∧ ¬cell.IsMark := by
  induction cs generalizing row with
  | nil => cases hrow
  | cons c cs ih =>
    have hrest (h : row ∈ rowsOf cs) : cell ∈ c :: cs ∧ ¬cell.IsMark :=
      ⟨List.mem_cons_of_mem c (ih h hcell).1, (ih h hcell).2⟩
    -- By induction on the cells: a mark of the end gives no more rows, a mark of a line begins a
    -- new one.
    rw [rowsOf] at hrow
    split at hrow
    · cases hrow
    · rcases List.mem_cons.1 hrow with rfl | hrow
      · cases hcell
      · exact hrest hrow
    · -- The cell `c` is no mark, and is put in front of the first row of the others.
      rename_i hinput hline
      have hc : ¬c.IsMark := fun hmark => hmark.elim hline hinput
      split at hrow
      · obtain rfl := List.mem_singleton.1 hrow
        obtain rfl := List.mem_singleton.1 hcell
        exact ⟨List.mem_cons_self, hc⟩
      · rename_i first others hrows
        rw [hrows] at ih hrest
        rcases List.mem_cons.1 hrow with rfl | hrow
        · rcases List.mem_cons.1 hcell with rfl | hcell
          · exact ⟨List.mem_cons_self, hc⟩
          · obtain ⟨hmem, hmark⟩ := ih List.mem_cons_self hcell
            exact ⟨List.mem_cons_of_mem c hmem, hmark⟩
        · exact hrest (List.mem_cons_of_mem first hrow)

/-- A grid of rows consists of the cells of the rows and of blanks. -/
theorem mem_of_mem_ofRows {rows : List (List Cell)} {row : Array Cell}
    (hrow : row ∈ (ofRows rows).rows) (hcell : cell ∈ row) :
    (∃ r ∈ rows, cell ∈ r) ∨ cell = .blank := by
  obtain ⟨r, hr, rfl⟩ := List.mem_map.1 (List.mem_toArray.1 hrow)
  rcases List.mem_append.1 (List.mem_toArray.1 hcell) with hcell | hcell
  · exact .inl ⟨r, hr, hcell⟩
  · exact .inr (List.eq_of_mem_replicate hcell)

/-- Every cell of a parsed grid is the one that its character makes, and no mark. -/
theorem cells_of_parse {source : String} {row : Array Cell} (hrow : row ∈ (parse source).rows)
    (hcell : cell ∈ row) : cell = .ofChar cell.glyph ∧ ¬cell.IsMark := by
  -- A cell comes from the text, or was put there to fill up its row.
  rcases mem_of_mem_ofRows hrow hcell with ⟨r, hr, hmem⟩ | rfl
  · obtain ⟨hmem, hmark⟩ := mem_of_mem_rowsOf hr hmem
    refine ⟨?_, hmark⟩
    rcases SourceText.ofChar_of_mem_cells _ cell hmem with hchar | rfl
    · exact hchar
    · exact absurd (.inr rfl) hmark
  · exact ⟨rfl, by rintro (h | h) <;> cases h⟩

/-- No cell of the grid is a mark. -/
def Unmarked (g : Grid) : Prop := ∀ row ∈ g.rows, ∀ cell ∈ row, ¬cell.IsMark

end Grid

/-! ## Faults that are no invalid instruction -/

/-- The reader faults for a bad word, for want of input, or for a broken source. -/
theorem Input.kind_of_readNumber {input rest : Input} {fault : Fault}
    (h : input.readNumber = .error fault rest) : fault.kind = .invalidInput ∨ fault.kind = .io := by
  -- The fault of a word says that it is no number.
  have hparse {token : String} (h : parse token = .error fault) : fault.kind = .invalidInput := by
    unfold parse at h
    split at h
    · split at h <;> cases h
      rfl
    · cases h
      rfl
  have hreply {a : Except Fault Binary64} {left : Input} (hread : input.readNumber = reply a left) :
      a = .error fault := by
    rw [h] at hread
    cases a with
    | ok value => cases hread
    | error e =>
      cases hread
      rfl
  -- The ways in which the reader comes to an answer.
  cases asked input with
  | word _ hread => exact .inl (hparse (hreply hread))
  | line _ _ _ _ hanswers hread =>
    -- The answer is that of a word, or stands for a line that is not UTF-8.
    obtain rfl := hreply hread
    unfold answersOf at hanswers
    split at hanswers
    · obtain ⟨token, words, -, htoken, -⟩ := List.map_eq_cons_iff.1 hanswers
      exact .inl (hparse htoken)
    · obtain ⟨hanswer, -⟩ := List.cons.inj hanswers
      cases hanswer
      exact .inl rfl
  | nothing _ hread =>
    have hlast := hreply hread
    unfold lastAnswer at hlast
    cases hdefect : input.defect with
    | none =>
      rw [hdefect] at hlast
      cases hlast
      exact .inl rfl
    | some reason =>
      rw [hdefect] at hlast
      cases hlast
      exact .inr rfl

/-- Only a mark faults as an invalid instruction. -/
theorem Cell.Faults.isMark {cell : Cell} {s : Stack} {input : Input} {out : Output} {fault : Fault}
    {lost : Nat} (h : cell.Faults s input out fault lost)
    (hkind : fault.kind = .invalidInstruction) : cell.IsMark := by
  -- Every other fault is of another kind.
  cases h with
  | noInstruction hmark => exact hmark
  | tooFew _ =>
    unfold Instruction.shortfall at hkind
    split at hkind <;> cases hkind
  | reader _ hread =>
    rcases Input.kind_of_readNumber hread with h | h
    · rw [h] at hkind
      cases hkind
    · rw [h] at hkind
      cases hkind
  | noSuchCount | zeroDivisor | refusedWrite | refusedFlush => cases hkind

namespace Machine

variable {m n : Machine} {fault : Fault} {call : Call} {es : List Exchange}

/-- A step that faults with an invalid instruction has met a mark. -/
theorem isMark_of_step_error (h : m.step = .error fault n)
    (hkind : fault.kind = .invalidInstruction) : ∃ cell, m.cell? = some cell ∧ cell.IsMark := by
  rcases step_error_cases h with ⟨cell, lost, hc, hfaults, -⟩ | ⟨reason, -, rfl, -⟩
  · exact ⟨cell, hc, hfaults.isMark hkind⟩
  · cases hkind

/-- On a grid without marks no step ends in the fault of an invalid instruction. -/
theorem status_next (hgrid : m.grid.Unmarked) (h : m.status ≠ .faulted .invalidInstruction) :
    m.next.status ≠ .faulted .invalidInstruction := by
  by_cases hrun : m.status = .running
  · have houtcome := step_outcome hrun
    cases hstep : m.step with
    | ok status n =>
      rw [hstep] at houtcome
      rw [next_of_step_ok hstep]
      -- A step that succeeds leaves a machine that is running or halted.
      cases houtcome with
      | running hn | halted hn =>
        rw [hn]
        nofun
    | error fault n =>
      rw [next_of_step_error hstep, status_of_step_error hstep]
      -- A step that faults has met a mark, of which there is none in the grid.
      intro hfaulted
      obtain ⟨cell, hc, hmark⟩ := isMark_of_step_error hstep (Status.faulted.inj hfaulted)
      obtain ⟨row, hrow, hmem⟩ := Grid.mem_of_lookup hc
      exact hgrid row hrow cell hmem hmark
  · rwa [next_of_not_running hrun]

/-- Whatever calls are made on a machine before its first step, on a grid without marks they do not
    lead to the fault of an invalid instruction. -/
theorem History.status_ne {g : Grid} {values : List Binary64} {seed : UInt64} {input : Input}
    {output : Output} (h : History (start g values seed input output) es m) (hgrid : g.Unmarked) :
    m.status ≠ .faulted .invalidInstruction := by
  let Inv (n : Machine) : Prop := n.grid = g ∧ n.status ≠ .faulted .invalidInstruction
  -- The grid goes with the invariant, for it is what the steps read.
  have hnext : ∀ n, Inv n → Inv n.next := by
    rintro n ⟨rfl, hstatus⟩
    exact ⟨grid_next n, status_next hgrid hstatus⟩
  have hstart : Inv (start g values seed input output) := ⟨rfl, nofun⟩
  exact (h.invariant hnext hstart).2

/-- The fault that a call gives has become the status in the end. -/
theorem History.status_of_error (h : History m es n) (hrun : m.status = .running) {e : Exchange}
    (he : e ∈ es) {last : Machine} (herror : e.result = .error fault last) :
    n.status = .faulted fault.kind := by
  -- Before the call that ends execution none faults, and after it none does.
  obtain ⟨before, rest, rfl, hbefore, hrest⟩ := h.phases hrun
  rcases List.mem_append.1 he with he | he
  · obtain ⟨p, hok, -⟩ := hbefore e he
    rw [herror] at hok
    cases hok
  · rcases hrest with ⟨rfl, -⟩ | ⟨ending, idle, rfl, hends, hn, hidle⟩
    · cases he
    · rcases List.mem_cons.1 he with rfl | he
      · -- This is the call that ends execution, and it ends it with its fault.
        rcases hends with ⟨p, hok, -⟩ | ⟨fault', p, hfault, hp⟩
        · rw [herror] at hok
          cases hok
        · rw [herror] at hfault
          cases hfault
          rw [hn, herror]
          exact hp
      · rw [hidle e he] at herror
        cases herror

end Machine

/-! ## Commands -/

namespace CommandLine

/-- The exit code of an invalid instruction belongs to no other end of a program. -/
theorem exitCode_eq_three {status : Status} (h : exitCode status = 3) :
    status = .faulted .invalidInstruction :=
  (exitCode_inj (t := .faulted .invalidInstruction)).1 h

/-- What a command runs is a history of a single call. -/
theorem Arguments.exists_history {a : Arguments} {m n : Machine} (h : a.complete m = some n) :
    ∃ es, Machine.History m es n := by
  rw [complete_eq] at h
  obtain ⟨result, hcall, rfl⟩ := Option.map_eq_some_iff.1 h
  exact ⟨_, .cons hcall .nil⟩

end CommandLine

/-! ## Parsed programs -/

open Machine CommandLine in
/-- Every cell of the grid of a program text is the one that its character makes, and none marks the
    end of a line or of the input. Whatever calls are made on a machine with this grid, the cell
    that it is at is the one in the row and column of its position and one of those cells, it is not
    faulted for an invalid instruction, and no call has given that fault. No command ends with the
    exit code of that fault. -/
theorem parsed_never_invalid (source : String) :
    (∀ row ∈ (Grid.parse source).rows, ∀ cell ∈ row,
      cell = .ofChar cell.glyph ∧ cell.instruction ≠ .endOfLine ∧ cell.instruction ≠ .endOfInput) ∧
    (∀ values seed input output es m,
      History (start (.parse source) values seed input output) es m →
        (∀ cell, m.cell? = some cell →
          (Grid.parse source).rows[m.pointer.position.y.toNat]?.bind
              (·[m.pointer.position.x.toNat]?) = some cell ∧
            ∃ row ∈ (Grid.parse source).rows, cell ∈ row) ∧
        m.status ≠ .faulted .invalidInstruction ∧
        ∀ e ∈ es, ∀ fault n, e.result = .error fault n → fault.kind ≠ .invalidInstruction) ∧
    ∀ args files entropy input output outcome,
      performOn args files entropy input output = some outcome → outcome.exitCode ≠ 3 := by
  have hunmarked (source : String) : (Grid.parse source).Unmarked :=
    fun row hrow cell hcell => (Grid.cells_of_parse hrow hcell).2
  refine ⟨fun row hrow cell hcell => ?_, ?_, ?_⟩
  · obtain ⟨hchar, hmark⟩ := Grid.cells_of_parse hrow hcell
    exact ⟨hchar, not_or.1 hmark⟩
  · -- The status is that of the last fault, so a call that had given this one would show.
    intro values seed input output es m h
    have hstatus := h.status_ne (hunmarked source)
    refine ⟨fun cell hc => ⟨?_, ?_⟩, hstatus, fun e he fault n herror hkind => ?_⟩
    · rw [← hc, h.sound.cell?_eq]
      rfl
    · rw [cell?, h.sound.grid_eq] at hc
      exact Grid.mem_of_lookup hc
    · rw [h.status_of_error rfl he herror, hkind] at hstatus
      exact hstatus rfl
  · intro args files entropy input output outcome h hthree
    -- A command that runs no program has zero or one for its code, and one that does is a history
    -- of one call.
    unfold performOn at h
    split at h
    · cases h
      cases hthree
    · cases h
      cases hthree
    · split at h
      · cases h
        cases hthree
      · rename_i source _
        obtain ⟨m, hm, rfl⟩ := Option.map_eq_some_iff.1 h
        obtain ⟨es, hhistory⟩ := Arguments.exists_history hm
        exact hhistory.status_ne (hunmarked source) (exitCode_eq_three hthree)

open Machine CommandLine in
/-- A line feed after an operator: the program faults for want of values, and so does a command that
    runs it. -/
theorem parsed_never_invalid_at_line_end :
    let m := start (.parse "+\n") [] 0 {} {}
    let outcome := Outcome.ran (.faulted .stackUnderflow) ""
    History m [⟨.step, Call.resultOf some m.step⟩] m.next ∧
      m.next.status = .faulted .stackUnderflow ∧
      m.next.status ≠ .faulted .invalidInstruction ∧
      perform ["-c", "+\n", "--max-steps", "9"] (fun _ => none) 0 [] = some outcome ∧
      outcome.exitCode ≠ 3 := by
  intro m outcome
  obtain ⟨-, hcalls, hcommands⟩ := parsed_never_invalid "+\n"
  have h : History m [⟨.step, Call.resultOf some m.step⟩] m.next := by
    refine .cons rfl ?_
    rw [Call.state_resultOf]
    exact History.nil (m := m.next)
  have hperform :
      perform ["-c", "+\n", "--max-steps", "9"] (fun _ => none) 0 [] = some outcome := by
    decide +kernel
  obtain ⟨-, hstatus, -⟩ := hcalls _ _ _ _ _ _ h
  exact ⟨h, by decide +kernel, hstatus, hperform, hcommands _ _ _ (.ofBytes []) {} _ hperform⟩

end Fish
