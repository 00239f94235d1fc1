import Fish.Proofs.Calls
import Fish.Proofs.FaultConditions
import Fish.Proofs.Lifecycle
import Fish.Proofs.SpacedText

/-!
# The output as a trace

What a program writes is all that its output ever gets. `Machine.written?` is the text that the next
step writes, if it writes one: that of the value on top, at one of the two instructions that write,
outside quotes, and only if the step does not fault. `Machine.trace` lists the texts of a number of
steps in order, and the output after these steps is what it was before them with the trace behind
it, byte for byte.

Main lemmas:

* `written?_eq_some_iff`   when a step writes, and what
* `output_next`            a step appends what it writes, and changes nothing else of the output
* `bytes_after`            so the output after a number of steps is their trace
* `output_is_trace`        this together with what it means for the bytes and for calls
-/

namespace Fish

/-- The bytes that were written, which are the text in UTF-8. -/
def Output.bytes (out : Output) : List UInt8 := Text.encode out.text.toList

/-- A text that is written adds its bytes at the end. -/
theorem Output.bytes_append (out : Output) (s : String) :
    ({ out with text := out.text ++ s } : Output).bytes = out.bytes ++ Text.encode s.toList := by
  rw [bytes, String.toList_append, Text.encode_append]
  rfl

namespace Machine

variable {m n : Machine} {cell : Cell} {value : Binary64} {rest : List Binary64} {text : String}
  {fault : Fault} {status : Status}

/-! ## Steps that write -/

/-- The text that the next step writes. -/
def written? (m : Machine) : Option String :=
  match m.status, m.quoting, m.cell?, m.stack.values, m.step with
  | .running, false, some cell, value :: _, .ok _ _ => cell.instruction.written? value
  | _, _, _, _, _ => none

/-- Only the two instructions that write have a text to write. -/
theorem writing_of_text (htext : cell.instruction.written? value = some text) :
    cell.instruction = .writeChar ∨ cell.instruction = .writeNumber := by
  rcases instruction_of_written htext with ⟨hi, -⟩ | ⟨hi, -⟩
  · exact .inl hi
  · exact .inr hi

/-- They write in the same way, and differ in the text only. -/
theorem exists_text (h : cell.instruction = .writeChar ∨ cell.instruction = .writeNumber) :
    ∃ text : Binary64 → String, (∀ value, cell.instruction.written? value = some (text value)) ∧
      obey cell = thenAdvance (pop >>= fun value => onOutput (Output.write (text value))) := by
  rcases h with hi | hi
  · refine ⟨fun value => String.singleton value.toChar, fun value => ?_, ?_⟩
    · rw [hi]
      rfl
    · rw [obey, hi, ← writeChar_eq]
  · refine ⟨Binary64.text, fun value => ?_, ?_⟩
    · rw [hi]
      rfl
    · rw [obey, hi, ← writeNumber_eq]

/-- A write for which there is room takes the value and appends its text. -/
theorem executeNext_of_write (hq : m.quoting = false) (hc : m.cell? = some cell)
    (hvalues : m.stack.values = value :: rest)
    (htext : cell.instruction.written? value = some text) (hroom : m.output.hasRoom text = true) :
    executeNext m = .ok .advance { m.counted.withValues rest with
      output := { m.output with text := m.output.text ++ text } } := by
  obtain ⟨f, hf, hobey⟩ := exists_text (writing_of_text htext)
  obtain rfl : f value = text := Option.some.inj ((hf value).symm.trans htext)
  rw [executeNext_of_obeying hc (.inl hq), hobey]
  simp only [thenAdvance_apply, popAndWrite_apply, stack_counted, output_counted, hvalues, hroom,
    if_true]

/-- So the step succeeds, and only one that has room does. -/
theorem step_of_write (hrun : m.status = .running) (hq : m.quoting = false)
    (hc : m.cell? = some cell) (hvalues : m.stack.values = value :: rest)
    (htext : cell.instruction.written? value = some text) (hroom : m.output.hasRoom text = true) :
    ∃ n, m.step = .ok .running n ∧
      n.output = { m.output with text := m.output.text ++ text } ∧ n.stack.values = rest := by
  have hstep := step_of_ok hrun (executeNext_of_write hq hc hvalues htext hroom)
  rw [status_move] at hstep
  -- What is left to do in the step is the move, which changes neither the output nor the stack.
  refine ⟨_, hrun ▸ hstep, ?_, ?_⟩
  · exact move_keeps (p := .output) nofun nofun _ .advance
  · have hactive := move_keeps (p := .active) nofun nofun { m.counted.withValues rest with
      output := { m.output with text := m.output.text ++ text } } .advance
    exact congrArg Stack.values hactive

/-- A write for which there is no room takes the value and faults. -/
theorem step_of_refused (hrun : m.status = .running) (hq : m.quoting = false)
    (hc : m.cell? = some cell) (hvalues : m.stack.values = value :: rest)
    (htext : cell.instruction.written? value = some text) (hroom : m.output.hasRoom text = false) :
    m.step =
      .error (.io "sink full") { m.counted.withValues rest with status := .faulted .io } := by
  have hread : cell.instruction ≠ .readNumber := by
    rcases writing_of_text htext with hi | hi <;> simp [hi]
  -- This is one of the listed faults, and it costs the one value.
  have hstep := step_error_of_faults hrun hc (.inl hq) (.refusedWrite htext hvalues hroom)
  rw [← losing_of_not_reading (m := m.counted) 1 hread, stack_counted, hvalues] at hstep
  exact hstep

/-- A step that writes executes an instruction that writes, outside quotes and with a value on the
    stack, and succeeds. Then the text is in the output, and the value is gone. -/
theorem exists_write (h : m.written? = some text) :
    m.status = .running ∧ m.quoting = false ∧
      ∃ cell value rest n, m.cell? = some cell ∧ m.stack.values = value :: rest ∧
        cell.instruction.written? value = some text ∧ m.step = .ok .running n ∧
        n.output = { m.output with text := m.output.text ++ text } ∧ n.stack.values = rest := by
  unfold written? at h
  split at h
  · rename_i cell value rest status n hrun hq hc hvalues hstep
    -- Without room the step would have faulted.
    have hroom : m.output.hasRoom text = true := by
      by_contra hfull
      rw [step_of_refused hrun hq hc hvalues h (Bool.eq_false_iff.2 hfull)] at hstep
      cases hstep
    obtain ⟨n, hwrite, houtput, hrest⟩ := step_of_write hrun hq hc hvalues h hroom
    exact ⟨hrun, hq, cell, value, rest, n, hc, hvalues, h, hwrite, houtput, hrest⟩
  · cases h

/-- When a step writes, and what. -/
theorem written?_eq_some_iff :
    m.written? = some text ↔
      m.status = .running ∧ m.quoting = false ∧
        ∃ cell value rest n, m.cell? = some cell ∧ m.stack.values = value :: rest ∧
          (cell.instruction = .writeChar ∧ text = String.singleton value.toChar ∨
            cell.instruction = .writeNumber ∧ text = value.text) ∧
          m.step = .ok .running n ∧ n.stack.values = rest := by
  constructor
  · intro h
    obtain ⟨hrun, hq, cell, value, rest, n, hc, hvalues, htext, hstep, -, hrest⟩ := exists_write h
    exact ⟨hrun, hq, cell, value, rest, n, hc, hvalues, instruction_of_written htext, hstep, hrest⟩
  · rintro ⟨hrun, hq, cell, value, rest, n, hc, hvalues, hi, hstep, -⟩
    simp only [written?, hrun, hq, hc, hvalues, hstep]
    rcases hi with ⟨hi, rfl⟩ | ⟨hi, rfl⟩ <;> rw [hi] <;> rfl

/-! ## Steps that do not write -/

/-- A step that succeeds at an instruction that writes has written. -/
theorem written?_of_writing (hrun : m.status = .running) (hc : m.cell? = some cell)
    (hwrites : Part.output ∈ m.writes cell) (hstep : m.step = .ok status n) :
    ∃ text, m.written? = some text := by
  obtain ⟨hobey, hwrites⟩ := obeying_of_mem_writes hwrites nofun
  have hwriting := Instruction.eq_write_of_output hwrites
  -- The only cell that is obeyed between quotes is a quote, which does not write.
  have hq : m.quoting = false := by
    rcases hobey with hq | hi
    · exact hq
    · rcases hwriting with h | h <;> rw [h] at hi <;> cases hi
  obtain ⟨f, hf, -⟩ := exists_text hwriting
  cases hvalues : m.stack.values with
  | nil =>
    -- There is no value to write, so the step cannot have succeeded.
    have hfew : m.stack.size < cell.instruction.valuesNeeded m.stack := by
      rw [Stack.size, hvalues]
      rcases hwriting with h | h <;> rw [h] <;> exact Nat.one_pos
    rw [step_error_of_faults hrun hc hobey (.tooFew hfew)] at hstep
    cases hstep
  | cons value rest =>
    refine ⟨f value, ?_⟩
    simp only [written?, hrun, hq, hc, hvalues, hstep, hf]

/-- A step that writes nothing leaves the output as it was. -/
theorem output_next_of_none (h : m.written? = none) : m.next.output = m.output := by
  by_cases hrun : m.status = .running
  · cases hstep : m.step with
    | ok status n =>
      -- A cell that might change the output would have written something.
      refine next_keeps (p := .output) (fun cell hc hwrites => ?_) nofun nofun nofun nofun
      obtain ⟨text, htext⟩ := written?_of_writing hrun hc hwrites hstep
      rw [h] at htext
      cases htext
    | error fault n =>
      rw [next_of_step_error hstep]
      exact step_error_keeps (p := .output) hstep nofun nofun nofun nofun
  · rw [next_of_not_running hrun]

/-- A step appends to the output what it writes, and does nothing else to it. -/
theorem output_next (m : Machine) :
    m.next.output = { m.output with text := m.output.text ++ m.written?.getD "" } := by
  cases hw : m.written? with
  | none => rw [output_next_of_none hw, Option.getD_none, String.append_empty]
  | some text =>
    obtain ⟨-, -, cell, value, rest, n, -, -, -, hstep, houtput, -⟩ := exists_write hw
    rw [next_of_step_ok hstep]
    exact houtput

/-! ## Any number of steps -/

/-- The texts that a number of steps write, in order. -/
def trace (m : Machine) (k : Nat) : List String := m.events written? k

/-- The bytes of texts one after the other. -/
def bytesOf (texts : List String) : List UInt8 := texts.flatMap fun text => Text.encode text.toList

/-- The output after a number of steps is that before them and their trace. -/
theorem bytes_after (m : Machine) (k : Nat) :
    (m.after k).output.bytes = m.output.bytes ++ bytesOf (m.trace k) := by
  -- By induction on the steps, the last one taken off.
  induction k with
  | zero => exact (List.append_nil _).symm
  | succ k ih =>
    -- The step appends to what the steps before it have left.
    rw [after_succ, output_next, Output.bytes_append, ih, List.append_assoc]
    rw [trace, trace, events_succ]
    cases (m.after k).written? <;> simp [bytesOf, Text.encode]

/-- The output after any number of steps consists of the bytes that were there before and those of
    the texts that the steps have written, in order. A step has written one if, outside quotes, it
    has executed an instruction that writes and has popped a value, and did not fault; it is the
    character of the value, or the value as a number. So the output only grows at its end, and it is
    always the UTF-8 of a text. Whatever calls are made, they lead to a machine after some number of
    steps. -/
theorem output_is_trace (m : Machine) :
    (∀ k, (m.after k).output.bytes = m.output.bytes ++ bytesOf (m.trace k) ∧
      Text.decode? (m.after k).output.bytes = some (m.after k).output.text ∧
      ∀ j ≤ k, (m.after j).output.bytes <+: (m.after k).output.bytes) ∧
    (∀ k text, (m.after k).written? = some text ↔
      (m.after k).status = .running ∧ (m.after k).quoting = false ∧
        ∃ cell value rest n, (m.after k).cell? = some cell ∧
          (m.after k).stack.values = value :: rest ∧
          (cell.instruction = .writeChar ∧ text = String.singleton value.toChar ∨
            cell.instruction = .writeNumber ∧ text = value.text) ∧
          (m.after k).step = .ok .running n ∧ n.stack.values = rest) ∧
    ∀ es n, History m es n → ∃ k, n = m.after k := by
  refine ⟨fun k => ⟨bytes_after m k, ?_, fun j hj => ?_⟩, fun k text => written?_eq_some_iff,
    fun es n h => h.exists_after⟩
  · rw [Output.bytes, Text.decode?_encode, String.ofList_toList]
  · -- What was written by then is before what the other steps write.
    obtain ⟨more, rfl⟩ := Nat.exists_eq_add_of_le hj
    have hmore := bytes_after (m.after j) more
    rw [after_after, Nat.add_comm] at hmore
    rw [hmore]
    exact List.prefix_append ..

/-- A character that there is none for, and an infinite number. The third step finds no value, and
    writes nothing. -/
theorem output_is_trace_of_odd_values :
    let m := start (.ofRows [[.ofChar 'o', .ofChar 'n']]) [.infinite true, .nan] 0 {} {}
    m.trace 3 = ["\ufffd", "-inf"] ∧ (m.after 3).output.bytes = bytesOf ["\ufffd", "-inf"] ∧
      Text.decode? (m.after 3).output.bytes = some (m.after 3).output.text := by
  intro m
  have htrace : m.trace 3 = ["\ufffd", "-inf"] := by decide +kernel
  obtain ⟨hafter, -, -⟩ := output_is_trace m
  obtain ⟨hbytes, hdecode, -⟩ := hafter 3
  rw [htrace] at hbytes
  exact ⟨htrace, hbytes, hdecode⟩

end Machine

end Fish
