import Fish.Grid
import Mathlib.Data.List.Basic

/-!
# The lines of a program text

A program text is cut into lines at its line feeds. A carriage return right before a line feed
belongs to the break, any other one is a character like all others, and what follows the last break
is a line only if it is not empty. `Text.sourceLines` cuts a text in this way, and `Text.Lined` says
the same without cutting: the text is its lines with their breaks between them. The reader, which
looks one character ahead and builds the rows from the end, finds exactly these lines.

Main lemmas:

* `Text.lined_sourceLines`       a text is its lines with their breaks
* `SourceText.cells_append`      a part of a line is read into the cells of its characters
* `Grid.rowsOf_cells`            the rows of a text are the cells of its lines
* `Grid.parse_by_lines`          a parsed grid is made of the lines of the text, padded with blanks
-/

namespace Fish

namespace Text

/-! ## Cutting a text into lines -/

/-- A part of a text before a line feed, without the carriage return that belongs to the break. -/
def dropReturn (part : List Char) : List Char :=
  if part.getLast? = some '\r' then part.dropLast else part

/-- The lines of a text: the parts between its line feeds, the last of them only if it is not
    empty. -/
def sourceLines (text : List Char) : List (List Char) :=
  let parts := text.splitOn '\n'
  parts.dropLast.map dropReturn ++ parts.getLast?.toList.filter (· ≠ [])

/-- The text consists of the given lines, each with a break after it. The last one can do without
    if it is not empty. -/
inductive Lined : List (List Char) → List Char → Prop
  | none : Lined [] []
  | unbroken {line : List Char} : line ≠ [] → '\n' ∉ line → Lined [line] line
  | feed {line rest : List Char} {lines : List (List Char)} :
    '\n' ∉ line → line.getLast? ≠ some '\r' → Lined lines rest →
    Lined (line :: lines) (line ++ '\n' :: rest)
  | returnFeed {line rest : List Char} {lines : List (List Char)} :
    '\n' ∉ line → Lined lines rest → Lined (line :: lines) (line ++ '\r' :: '\n' :: rest)

/-- A text without a line feed is one line, if it is not empty. -/
theorem sourceLines_of_no_feed {text : List Char} (h : '\n' ∉ text) :
    sourceLines text = if text = [] then [] else [text] := by
  have hparts : text.splitOn '\n' = [text] := List.splitOn_eq_singleton h
  by_cases hnil : text = [] <;> simp [sourceLines, hparts, hnil]

/-- The text before the first line feed makes the first line. -/
theorem sourceLines_append_feed {part : List Char} (h : '\n' ∉ part) (rest : List Char) :
    sourceLines (part ++ '\n' :: rest) = dropReturn part :: sourceLines rest := by
  have hparts : (part ++ '\n' :: rest).splitOn '\n' = part :: rest.splitOn '\n' := by
    rw [List.splitOn_append_cons_self, List.splitOn_eq_singleton h, List.singleton_append]
  have hne : rest.splitOn '\n' ≠ [] := List.splitOn_ne_nil '\n' rest
  simp [sourceLines, hparts, List.dropLast_cons_of_ne_nil hne, List.getLast?_cons_of_ne_nil hne]

/-- A text is its lines with their breaks. -/
theorem lined_sourceLines (text : List Char) : Lined (sourceLines text) text := by
  -- The first line is cut off with its break, so that less text is left.
  induction hlength : text.length using Nat.strongRecOn generalizing text with
  | ind length ih =>
    by_cases hfeed : '\n' ∈ text
    · obtain ⟨part, rest, rfl, hfree⟩ := List.eq_append_cons_of_mem hfeed
      have hshorter : rest.length < length := by
        simp at hlength
        omega
      have hrest := ih rest.length hshorter rest rfl
      rw [sourceLines_append_feed hfree, dropReturn]
      split
      · rename_i hreturn
        -- The carriage return at the end of the part is the first half of the break.
        obtain ⟨line, rfl⟩ := List.getLast?_eq_some_iff.1 hreturn
        have hline : '\n' ∉ line := fun hmem => hfree (List.mem_append_left _ hmem)
        rw [List.dropLast_concat, List.append_assoc]
        exact .returnFeed hline hrest
      · rename_i hreturn
        exact .feed hfree hreturn hrest
    · rw [sourceLines_of_no_feed hfeed]
      split
      · rename_i hnil
        exact hnil ▸ .none
      · rename_i hne
        exact .unbroken hne hfeed

end Text

/-! ## Reading lines -/

namespace SourceText

variable {line rest : List Char}

/-- An empty text is read into the mark of its end. -/
theorem cells_nil : cells ⟨[], false⟩ = [.endOfInput] := by
  rw [cells_of_next?]
  simp [next?, cells_of_next? ⟨[], true⟩]

/-- A character is read into its cell, unless it is the first half of a break. -/
theorem cells_cons {c : Char} (h : c = '\r' → rest.head? ≠ some '\n') :
    cells ⟨c :: rest, false⟩ = .ofChar c :: cells ⟨rest, false⟩ := by
  have hnext : next? ⟨c :: rest, false⟩ = some (.ofChar c, ⟨rest, false⟩) := by
    unfold next?
    split
    · contradiction
    · split <;> simp_all
  simp [cells_of_next? ⟨c :: rest, false⟩, hnext]

/-- A carriage return and a line feed are one cell together. -/
theorem cells_returnFeed : cells ⟨'\r' :: '\n' :: rest, false⟩ =
    .ofChar '\n' :: cells ⟨rest, false⟩ := by
  rw [cells_of_next?]
  simp [next?]

/-- A part of a line is read into the cells of its characters, if no break is cut in two. -/
theorem cells_append (hfeed : '\n' ∉ line)
    (hreturn : line.getLast? = some '\r' → rest.head? ≠ some '\n') :
    cells ⟨line ++ rest, false⟩ = line.map Cell.ofChar ++ cells ⟨rest, false⟩ := by
  induction line with
  | nil => rfl
  | cons c line ih =>
    simp only [List.mem_cons, not_or] at hfeed
    -- A line feed after the character would be in the line, or right after its end.
    have hnext : c = '\r' → (line ++ rest).head? ≠ some '\n' := by
      cases line with
      | nil =>
        rintro rfl
        exact hreturn rfl
      | cons d line =>
        intro _ hd
        rw [List.cons_append, List.head?_cons] at hd
        exact hfeed.2 (Option.some.inj hd ▸ List.mem_cons_self)
    have hline : line.getLast? = some '\r' → rest.head? ≠ some '\n' := by
      intro hlast
      refine hreturn ?_
      simp [List.getLast?_cons, hlast]
    rw [List.cons_append, cells_cons hnext, ih hfeed.2 hline]
    rfl

end SourceText

namespace Grid

/-- The cell of a character other than a line feed is no mark. -/
theorem instruction_ofChar_ne {c : Char} (h : c ≠ '\n') :
    (Cell.ofChar c).instruction ≠ .endOfLine ∧ (Cell.ofChar c).instruction ≠ .endOfInput :=
  ⟨fun hline => h (Instruction.ofChar_eq_endOfLine_iff.1 hline), Instruction.ofChar_ne_endOfInput c⟩

/-- A cell that is no mark is put in front of the first row. -/
theorem rowsOf_cons {c : Cell} (hline : c.instruction ≠ .endOfLine)
    (hinput : c.instruction ≠ .endOfInput) (cs : List Cell) :
    rowsOf (c :: cs) = (c :: (rowsOf cs).headD []) :: (rowsOf cs).tail := by
  rw [rowsOf]
  split
  · contradiction
  · contradiction
  · cases rowsOf cs <;> rfl

/-- The mark of a line's end closes the row before it, also one without cells. -/
theorem rowsOf_append_feed {line : List Char} (h : '\n' ∉ line) (cs : List Cell) :
    rowsOf (line.map Cell.ofChar ++ .ofChar '\n' :: cs) = line.map Cell.ofChar :: rowsOf cs := by
  induction line with
  | nil => rfl
  | cons c line ih =>
    simp only [List.mem_cons, not_or] at h
    obtain ⟨hline, hinput⟩ := instruction_ofChar_ne (Ne.symm h.1)
    rw [List.map_cons, List.cons_append, rowsOf_cons hline hinput, ih h.2]
    rfl

/-- The mark of the input's end closes a row only if that has cells. -/
theorem rowsOf_append_end {line : List Char} (hne : line ≠ []) (h : '\n' ∉ line) :
    rowsOf (line.map Cell.ofChar ++ [.endOfInput]) = [line.map Cell.ofChar] := by
  induction line with
  | nil => contradiction
  | cons c line ih =>
    simp only [List.mem_cons, not_or] at h
    obtain ⟨hline, hinput⟩ := instruction_ofChar_ne (Ne.symm h.1)
    rw [List.map_cons, List.cons_append, rowsOf_cons hline hinput]
    cases line with
    | nil => rfl
    | cons d line =>
      rw [ih (List.cons_ne_nil d line) h.2]
      rfl

/-- The rows of a text are the cells of its lines. -/
theorem rowsOf_cells {lines : List (List Char)} {text : List Char} (h : Text.Lined lines text) :
    rowsOf (SourceText.cells ⟨text, false⟩) = lines.map (List.map Cell.ofChar) := by
  -- The induction is on the lines with their breaks: each line is read into its cells, and its
  -- break into the mark that closes the row.
  induction h with
  | none =>
    rw [SourceText.cells_nil]
    rfl
  | @unbroken line hne hfeed =>
    have hcells : SourceText.cells ⟨line ++ [], false⟩ =
        line.map Cell.ofChar ++ SourceText.cells ⟨[], false⟩ :=
      SourceText.cells_append hfeed fun _ => nofun
    rw [List.append_nil, SourceText.cells_nil] at hcells
    rw [hcells, rowsOf_append_end hne hfeed]
    rfl
  | @feed line rest lines hfeed hreturn _ ih =>
    rw [SourceText.cells_append hfeed (absurd · hreturn),
      SourceText.cells_cons fun hc => absurd hc (by decide), rowsOf_append_feed hfeed, ih]
    rfl
  | @returnFeed line rest lines hfeed _ ih =>
    rw [SourceText.cells_append hfeed fun _ => by simp, SourceText.cells_returnFeed,
      rowsOf_append_feed hfeed, ih]
    rfl

/-- A text has no other lines than those that it is cut into. -/
theorem eq_sourceLines {lines : List (List Char)} {text : List Char} (h : Text.Lined lines text) :
    lines = Text.sourceLines text := by
  -- Both have the same rows, and the rows of a text show its characters.
  have hrows := (rowsOf_cells h).symm.trans (rowsOf_cells (Text.lined_sourceLines text))
  have hinj : Function.Injective Cell.ofChar := fun c d hcd => congrArg Cell.glyph hcd
  exact List.map_injective_iff.2 (List.map_injective_iff.2 hinj) hrows

/-! ## The grid of a text -/

/-- The grid of a text is made of its lines. -/
theorem parse_eq_ofRows (source : String) :
    parse source = ofRows ((Text.sourceLines source.toList).map (List.map Cell.ofChar)) :=
  congrArg ofRows (rowsOf_cells (Text.lined_sourceLines source.toList))

/-- The rows of a parsed grid are the lines of the text: its parts between line feeds, each without
    a carriage return right before the line feed, and the last one only if it is not empty. Every
    character of a line makes a cell that shows it and has its instruction; blanks follow up to the
    length of the longest line, which is the width of the grid, and the height is the number of
    lines. These lines and the breaks after them are the whole text, and no others are. -/
theorem parse_by_lines (source : String) :
    let lines := Text.sourceLines source.toList
    let g := parse source
    g.height = lines.length ∧
      g.width = ((lines.map List.length).max?).getD 0 ∧
      g.rows.toList.map Array.toList = lines.map (fun line =>
        line.map (fun c => ⟨Instruction.ofChar c, c⟩) ++
          List.replicate (g.width - line.length) Cell.blank) ∧
      ∀ ls, Text.Lined ls source.toList ↔ ls = lines := by
  intro lines g
  have hg : g = ofRows (lines.map (List.map Cell.ofChar)) := parse_eq_ofRows source
  have hwidth : g.width = ((lines.map List.length).max?).getD 0 := by
    rw [hg]
    show longest _ = _
    rw [longest_eq_max?, List.map_map]
    simp [Function.comp_def]
  refine ⟨?_, hwidth, ?_, fun ls => ⟨eq_sourceLines, ?_⟩⟩
  · rw [hg]
    simp [height, ofRows]
  · rw [hg]
    simp [ofRows, padRow, Function.comp_def, Cell.ofChar]
  · rintro rfl
    exact Text.lined_sourceLines source.toList

/-- Two carriage returns before a line feed, of which one stays in its line, an empty line, and a
    last line that ends in a carriage return. -/
example : Text.sourceLines "1\r\r\n\n\r".toList = [['1', '\r'], [], ['\r']] := by decide

end Grid

end Fish
