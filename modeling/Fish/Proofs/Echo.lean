import Fish.Proofs.Budgets
import Fish.Proofs.ControlFlow
import Fish.Proofs.LiteralRuns
import Fish.Proofs.OutputTrace
import Fish.Proofs.SourceLines

/-!
# A program that writes a text

A text without quotes and line feeds is written by a program of a single row: the text between
quotes, a cell that turns the stack upside down, a cell that writes for each character, and a halt.
`echoing` is the machine on its way through this row. Its column, its values and what it has written
say all that changes, so the program is followed one part at a time, each part by the equation that
says what it makes of an `echoing` machine.

Main lemmas:

* `Grid.lookup_row`      a grid of a single row shows the cells of the row
* `echoing_next`         a cell that lets the pointer go on leads to the next column
* `after_literals`       the characters of a literal run are pushed
* `after_writes`         a run of cells that write takes the values from the stack one by one
* `echo_halts`           the program writes its text and halts, after so many steps and not before
-/

namespace Fish

/-! ## Programs of a single row -/

namespace Grid

variable {row : List Cell} {cell : Cell} {k : Nat}

/-- A grid of one row is as wide as the row. -/
@[simp] theorem width_row (row : List Cell) : (ofRows [row]).width = row.length := by
  simp [ofRows, longest]

/-- A grid of one row has the height one. -/
@[simp] theorem height_row (row : List Cell) : (ofRows [row]).height = 1 := rfl

/-- A grid of a single row shows the cells of the row. -/
theorem lookup_row (hc : row[k]? = some cell) :
    (ofRows [row]).lookup ⟨k, 0⟩ = some cell := by
  obtain ⟨hk, -⟩ := List.getElem?_eq_some_iff.1 hc
  have hinside : Point.Inside ⟨k, 0⟩ (ofRows [row]).bounds := by
    simp only [Point.Inside, bounds_x, bounds_y, width_row, height_row]
    omega
  rw [lookup, isEmpty_of_inside hinside, if_neg Bool.false_ne_true, hinside.wrap_eq]
  simp [cell?, ofRows, padRow, longest, hc]

/-- A character that is not the last one of a row has its cell there, and one after it. -/
theorem getElem?_row {before rest : List Char} {c : Char}
    (hrow : row = (before ++ c :: rest).map Cell.ofChar) (hrest : rest ≠ []) :
    row[before.length]? = some (.ofChar c) ∧ before.length + 1 < row.length := by
  have hlength : 0 < rest.length := List.length_pos_iff.2 hrest
  subst hrow
  constructor
  · simp
  · simp
    omega

/-- A pace to the right that does not leave the row. -/
theorem advance_row (hk : k + 1 < row.length) :
    Pointer.advance ⟨⟨k, 0⟩, .right⟩ (ofRows [row]).bounds = ⟨⟨(k + 1 : Nat), 0⟩, .right⟩ := by
  have hinside : Point.Inside ⟨(k + 1 : Nat), 0⟩ (ofRows [row]).bounds := by
    simp only [Point.Inside, bounds_x, bounds_y, width_row, height_row]
    omega
  obtain ⟨hx, hy⟩ := bounds_pos (isEmpty_of_inside hinside)
  rw [Pointer.advance, Pointer.jump, if_neg (by omega)]
  exact congrArg (Pointer.mk · .right) hinside.wrap_eq

/-- A text without line feeds is a program of a single row. -/
theorem parse_of_no_feed {source : String} (hne : source.toList ≠ [])
    (h : '\n' ∉ source.toList) : parse source = ofRows [source.toList.map Cell.ofChar] := by
  rw [parse_eq_ofRows, Text.sourceLines_of_no_feed h, if_neg hne]
  rfl

end Grid

/-- The bytes that were written are those of the text. -/
theorem Output.toByteArray_bytes (out : Output) : out.bytes.toByteArray = out.text.toUTF8 :=
  String.utf8Encode_toList

/-- Only the two quotation marks are quotes. -/
theorem Instruction.ofChar_eq_quote_iff {c : Char} :
    ofChar c = .quote ↔ c = '\'' ∨ c = '"' := by
  constructor
  · intro h
    unfold ofChar at h
    split at h <;> first | exact .inl rfl | exact .inr rfl | cases h
  · rintro (rfl | rfl) <;> rfl

namespace Machine

/-! ## Machines in a row -/

/-- A machine on its way through a program of a single row, in which only the column, the values of
    its stack and what it has written change. -/
def echoing (row : List Cell) (seed : UInt64) (input : Input) (k : Nat) (quoting : Bool)
    (values : List Binary64) (text : List Char) : Machine where
  grid := .ofRows [row]
  pointer := ⟨⟨k, 0⟩, .right⟩
  tower := .ofStack { values }
  quoting
  generator := .ofSeed seed
  input
  output := { text := .ofList text }
  steps := k

variable {row : List Cell} {cell : Cell} {seed : UInt64} {input : Input} {k : Nat}
  {quoting quoting' : Bool} {values values' : List Binary64} {text text' : List Char}

/-- A cell that lets the pointer go on, to a column that is still in the row. -/
theorem echoing_next (hc : row[k]? = some cell) (hk : k + 1 < row.length)
    (he : execute cell (echoing row seed input k quoting values text).counted =
      .ok .advance (echoing row seed input k quoting' values' text').counted) :
    (echoing row seed input k quoting values text).next =
      echoing row seed input (k + 1) quoting' values' text' := by
  have hcell : (echoing row seed input k quoting values text).cell? = some cell :=
    Grid.lookup_row hc
  have hstep := step_of_advance rfl ((executeNext_of_cell hcell).trans he) rfl rfl
  have hpace := Grid.advance_row hk
  rw [next_of_step_ok hstep]
  simp only [pace, counted, echoing, hpace]

/-- A quote begins or ends the literal run of a machine in a row. -/
theorem next_of_quote (hc : row[k]? = some cell) (hk : k + 1 < row.length)
    (hi : cell.instruction = .quote) :
    (echoing row seed input k quoting values text).next =
      echoing row seed input (k + 1) (!quoting) values text := by
  refine echoing_next hc hk ?_
  rw [execute_of_obeying (.inr hi), obey, hi]
  rfl

/-- Between quotes a machine in a row pushes the code point of the cell. -/
theorem next_of_literal (hc : row[k]? = some cell) (hk : k + 1 < row.length)
    (hi : cell.instruction ≠ .quote) :
    (echoing row seed input k true values text).next =
      echoing row seed input (k + 1) true (cell.code :: values) text :=
  echoing_next hc hk (execute_of_quoting rfl hi)

/-- A reversal of a machine in a row turns its stack over. -/
theorem next_of_reverse (hc : row[k]? = some (.ofChar 'r')) (hk : k + 1 < row.length) :
    (echoing row seed input k false values text).next =
      echoing row seed input (k + 1) false values.reverse text :=
  echoing_next hc hk rfl

/-- A write appends the character that the value on top stands for. -/
theorem next_of_write {value : Binary64} (hc : row[k]? = some (.ofChar 'o'))
    (hk : k + 1 < row.length) :
    (echoing row seed input k false (value :: values) text).next =
      echoing row seed input (k + 1) false values (text ++ [value.toChar]) := by
  refine echoing_next hc hk ?_
  let m := (echoing row seed input k false (value :: values) text).counted
  have hvalues : m.stack.values = value :: values := rfl
  -- The output of these machines has no limit, so there is room for the character.
  have hroom : m.output.hasRoom (String.singleton value.toChar) = true := rfl
  have hwritten : String.ofList (text ++ [value.toChar]) =
      String.ofList text ++ String.singleton value.toChar := by
    rw [String.ofList_append]
    rfl
  show thenAdvance writeChar m = _
  simp only [thenAdvance_apply, writeChar_eq, popAndWrite_apply, hvalues, hroom, if_true]
  rw [echoing, hwritten]
  rfl

/-- A halt ends the program where the pointer is. -/
theorem step_of_halt (hc : row[k]? = some (.ofChar ';')) :
    (echoing row seed input k false values text).step =
      .ok .halted { (echoing row seed input k false values text).counted with
        status := .halted } := by
  have hcell : (echoing row seed input k false values text).cell? = some (.ofChar ';') :=
    Grid.lookup_row hc
  have hnext : executeNext (echoing row seed input k false values text) = .ok .stay
      { (echoing row seed input k false values text).counted with status := .halted } :=
    executeNext_of_obeying hcell (.inl rfl)
  exact step_of_ok rfl hnext

/-! ## Runs of like cells -/

/-- The characters of a literal run are pushed, the last one on top. -/
theorem after_literals (seed : UInt64) (input : Input) (values : List Binary64)
    (text : List Char) {run before rest : List Char}
    (hrow : row = (before ++ run ++ rest).map Cell.ofChar) (hrest : rest ≠ [])
    (hquote : ∀ c ∈ run, Instruction.ofChar c ≠ .quote) :
    (echoing row seed input before.length true values text).after run.length =
      echoing row seed input (before.length + run.length) true
        ((run.map fun c => .ofNat c.toNat).reverse ++ values) text := by
  -- The induction takes one character after the other from the run to what lies before it.
  induction run generalizing before values with
  | nil => rfl
  | cons c run ih =>
    obtain ⟨hc, hrun⟩ := List.forall_mem_cons.1 hquote
    have hsplit : row = (before ++ c :: (run ++ rest)).map Cell.ofChar := by simp [hrow]
    obtain ⟨hcell, hk⟩ := Grid.getElem?_row hsplit (List.append_ne_nil_of_right_ne_nil run hrest)
    have hmoved : row = (before ++ [c] ++ run ++ rest).map Cell.ofChar := by
      rw [hrow]
      simp
    have ih := ih ((Cell.ofChar c).code :: values) hmoved hrun
    rw [List.length_append, List.length_singleton] at ih
    rw [List.length_cons, ← after_next, next_of_literal hcell hk hc, ih]
    simp [Cell.code, Cell.ofChar, Nat.add_assoc, Nat.add_comm 1]

/-- A run of cells that write takes the values from the stack and writes their characters. -/
theorem after_writes (seed : UInt64) (input : Input) (values : List Binary64) (text : List Char)
    {run before rest : List Char}
    (hrow : row = (before ++ List.replicate run.length 'o' ++ rest).map Cell.ofChar)
    (hrest : rest ≠ []) :
    (echoing row seed input before.length false ((run.map fun c => .ofNat c.toNat) ++ values)
        text).after run.length =
      echoing row seed input (before.length + run.length) false values (text ++ run) := by
  -- As for literals; each character also moves from the stack to what was written.
  induction run generalizing before text with
  | nil => simp [after_zero]
  | cons c run ih =>
    have hsplit :
        row = (before ++ 'o' :: (List.replicate run.length 'o' ++ rest)).map Cell.ofChar := by
      simp [hrow, List.replicate_succ]
    obtain ⟨hcell, hk⟩ := Grid.getElem?_row hsplit (List.append_ne_nil_of_right_ne_nil _ hrest)
    have hmoved :
        row = (before ++ ['o'] ++ List.replicate run.length 'o' ++ rest).map Cell.ofChar := by
      rw [hrow]
      simp [List.replicate_succ]
    have ih := ih (text ++ [c]) hmoved
    rw [List.length_append, List.length_singleton] at ih
    rw [List.length_cons, ← after_next, List.map_cons, List.cons_append, next_of_write hcell hk,
      Binary64.toChar_ofNat_toNat, ih]
    simp [Nat.add_assoc, Nat.add_comm 1]

/-! ## The program -/

/-- The characters of the program that writes a text: the text between quotes, so that it is pushed,
    a reversal, a write for each character, and a halt. -/
def echoChars (text : List Char) : List Char :=
  ['"'] ++ text ++ ['"', 'r'] ++ List.replicate text.length 'o' ++ [';']

/-- The program that writes a text. -/
def echoProgram (s : String) : String := .ofList (echoChars s.toList)

/-- The row that the program consists of. -/
def echoRow (text : List Char) : List Cell := (echoChars text).map Cell.ofChar

/-- The program has two cells for each character and four more. -/
theorem length_echoRow (text : List Char) : (echoRow text).length = 2 * text.length + 4 := by
  simp [echoRow, echoChars]
  omega

/-- The last cell of the program halts. -/
theorem getElem?_echoRow_last (text : List Char) :
    (echoRow text)[2 * text.length + 3]? = some (.ofChar ';') := by
  have hlast : (echoRow text).getLast? = some (.ofChar ';') := by
    rw [echoRow, echoChars, List.map_append, List.map_singleton, List.getLast?_concat]
  rwa [List.getLast?_eq_getElem?, length_echoRow] at hlast

/-- The program of a text without line feeds is a single row, and its machine starts there. -/
theorem start_echo {s : String} (hfeed : '\n' ∉ s.toList) (seed : UInt64) (input : Input) :
    start (.parse (echoProgram s)) [] seed input {} =
      echoing (echoRow s.toList) seed input 0 false [] [] := by
  have hchars : (echoProgram s).toList = echoChars s.toList := String.toList_ofList
  have hne : (echoProgram s).toList ≠ [] := by
    rw [hchars]
    exact List.cons_ne_nil _ _
  have hnone : '\n' ∉ (echoProgram s).toList := by
    rw [hchars]
    simp [echoChars, hfeed]
  rw [Grid.parse_of_no_feed hne hnone, hchars]
  rfl

/-- Up to the halt the program writes its text and uses up its stack. -/
theorem after_echo (hquote : ∀ c ∈ text, Instruction.ofChar c ≠ .quote) (seed : UInt64)
    (input : Input) :
    (echoing (echoRow text) seed input 0 false [] []).after (2 * text.length + 3) =
      echoing (echoRow text) seed input (2 * text.length + 3) false [] text := by
  generalize hm : echoing (echoRow text) seed input 0 false [] [] = m
  have hlength := length_echoRow text
  have hfirst : (echoRow text)[0]? = some (.ofChar '"') := by
    simp [echoRow, echoChars]
  have hopened : m.after 1 = echoing (echoRow text) seed input 1 true [] [] := by
    rw [after_succ, after_zero, ← hm]
    exact next_of_quote hfirst (by omega) rfl
  -- Every character of the text is pushed, so that the last one is on top.
  have hpushed : m.after (text.length + 1) = echoing (echoRow text) seed input (text.length + 1)
      true (text.map fun c => .ofNat c.toNat).reverse [] := by
    have hrow : echoRow text = (['"'] ++ text ++
        ('"' :: 'r' :: List.replicate text.length 'o' ++ [';'])).map Cell.ofChar := by
      simp [echoRow, echoChars]
    have hrun := after_literals seed input [] [] hrow (List.cons_ne_nil _ _) hquote
    rw [List.append_nil, List.length_singleton, Nat.add_comm 1] at hrun
    rw [← after_after, hopened, hrun]
  have hquoted : (echoRow text)[text.length + 1]? = some (.ofChar '"') := by
    simp [echoRow, echoChars]
  have hclosed : m.after (text.length + 2) = echoing (echoRow text) seed input (text.length + 2)
      false (text.map fun c => .ofNat c.toNat).reverse [] := by
    rw [after_succ, hpushed]
    exact next_of_quote hquoted (by omega) rfl
  have hreversal : (echoRow text)[text.length + 2]? = some (.ofChar 'r') := by
    simp [echoRow, echoChars]
  -- The reversal puts the first character on top, where the writes begin.
  have hreversed : m.after (text.length + 3) = echoing (echoRow text) seed input (text.length + 3)
      false (text.map fun c => .ofNat c.toNat) [] := by
    rw [after_succ, hclosed, next_of_reverse hreversal (by omega), List.reverse_reverse]
  -- Now the first character is on top, and the writes take one after the other.
  have hrow : echoRow text = (['"'] ++ text ++ ['"', 'r'] ++ List.replicate text.length 'o' ++
      [';']).map Cell.ofChar := rfl
  have hwritten := after_writes seed input [] [] hrow (List.cons_ne_nil _ _)
  have hbefore : (['"'] ++ text ++ ['"', 'r']).length = text.length + 3 := by simp
  rw [hbefore, List.append_nil, List.nil_append] at hwritten
  have hsum : 2 * text.length + 3 = text.length + (text.length + 3) := by omega
  rw [hsum, ← after_after, hreversed, hwritten, Nat.add_comm (text.length + 3)]

/-- For a text without quotes and line feeds, the program made of the text between two quotes, a
    reversal, a write for each character and a halt writes the text, byte for byte, and halts with
    an empty stack after two steps for each character and four more. Whatever the seed and the
    input are, with a smaller budget it is still running. -/
theorem echo_halts (s : String) (h : ∀ c ∈ s.toList, c ≠ '\'' ∧ c ≠ '"' ∧ c ≠ '\n')
    (seed : UInt64) (input : Input) :
    let m := start (.parse (echoProgram s)) [] seed input {}
    (∃ n, m.runFor (2 * s.length + 4) = .ok .halted n ∧ m.run = some (.ok () n) ∧
      n.status = .halted ∧ n.steps = 2 * s.length + 4 ∧ n.tower = .ofStack {} ∧
      n.output.text = s ∧ n.output.bytes.toByteArray = s.toUTF8) ∧
    ∀ budget < 2 * s.length + 4, ∃ n,
      m.runFor budget = .ok .running n ∧ n.status = .running ∧ n.steps = budget := by
  intro m
  have hquote : ∀ c ∈ s.toList, Instruction.ofChar c ≠ .quote := fun c hc hi => by
    obtain ⟨hsingle, hdouble, -⟩ := h c hc
    exact (Instruction.ofChar_eq_quote_iff.1 hi).elim hsingle hdouble
  -- Without a line feed the program is a single row, and without quotes the text is one literal
  -- run.
  have hstart : m = echoing (echoRow s.toList) seed input 0 false [] [] :=
    start_echo (fun hc => (h _ hc).2.2 rfl) seed input
  have hafter := after_echo hquote seed input
  rw [← hstart, String.length_toList] at hafter
  have hrunning : (m.after (2 * s.length + 3)).status = .running := by
    rw [hafter]
    rfl
  -- The step after that meets the halt.
  have hhalt : (echoRow s.toList)[2 * s.length + 3]? = some (.ofChar ';') :=
    getElem?_echoRow_last s.toList
  have hruns := runFor_succ (2 * s.length + 3) m
  rw [if_pos hrunning, hafter, step_of_halt hhalt] at hruns
  -- The budget is enough, so the run without one has the same end.
  have hend : (m.after (2 * s.length + 4)).status ≠ .running := by
    rw [← state_runFor, hruns]
    nofun
  have htext : String.ofList s.toList = s := String.ofList_toList
  refine ⟨⟨_, hruns, ?_, rfl, rfl, rfl, htext, ?_⟩, fun budget hbudget => ?_⟩
  · rw [run_eq_some_iff.2 (ends_of_runFor hend), Action.discard_of_ok hruns]
  · rw [Output.toByteArray_bytes]
    exact congrArg String.toUTF8 htext
  · -- A smaller budget is spent before the halt.
    have hrun := running_of_le (Nat.le_of_lt_succ hbudget) hrunning
    refine ⟨_, runFor_of_running hrun, hrun, ?_⟩
    rw [(steps_after_le m budget).2.2 hrun]
    exact Nat.zero_add budget

/-- A text of a letter that is not ASCII, a carriage return and a character that would halt. -/
theorem echo_halts_of_odd_text :
    let m := start (.parse "\"\u00e9\r;\"rooo;") [] 7 {} {}
    (∀ c ∈ "\u00e9\r;".toList, c ≠ '\'' ∧ c ≠ '"' ∧ c ≠ '\n') ∧
      (∃ n, m.run = some (.ok () n) ∧ n.output.text = "\u00e9\r;" ∧ n.steps = 10) ∧
      ∃ n, m.runFor 9 = .ok .running n := by
  intro m
  have hplain : ∀ c ∈ "\u00e9\r;".toList, c ≠ '\'' ∧ c ≠ '"' ∧ c ≠ '\n' := by simp
  have hlength : "\u00e9\r;".length = 3 := by decide
  have hprogram : echoProgram "\u00e9\r;" = "\"\u00e9\r;\"rooo;" := by decide +kernel
  obtain ⟨⟨n, -, hrun, -, hsteps, -, htext, -⟩, hsmaller⟩ := echo_halts "\u00e9\r;" hplain 7 {}
  rw [hprogram] at hrun hsmaller
  rw [hlength] at hsteps
  obtain ⟨p, hp, -, -⟩ := hsmaller 9 (by omega)
  exact ⟨hplain, ⟨n, hrun, htext, hsteps⟩, p, hp⟩

end Machine

end Fish
