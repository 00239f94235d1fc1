import Fish.Proofs.GridCells
import Fish.Proofs.ParsedPrograms
import Fish.Proofs.SourceLines

/-!
# Grids written out

A grid can be written out as a program text, the characters of each row with an ending after them.
Reading the text again finds the rows, except that a carriage return before the line feed belongs to
the break: the reader takes it from the end of the row if the ending did not bring one of its own.
So endings of a carriage return and a line feed give every parsed grid back, and line feeds alone
give back those that have no carriage return at the end of a row.

Main lemmas:

* `Text.sourceLines_flatMap`   the lines of a text that is written line by line
* `Grid.parse_written`         the grid of a text that was written from a parsed one
* `Grid.cellAt_dropReturn`     a row that loses its carriage return has a blank in its place
* `Grid.reparse_written`       which endings give the grid back
-/

namespace Fish

namespace Text

variable {line ending : List Char} {lines : List (List Char)}

/-- A part that does not end in a carriage return loses nothing. -/
theorem dropReturn_of_getLast?_ne (h : line.getLast? ≠ some '\r') : dropReturn line = line :=
  if_neg h

/-- The carriage return of an ending is the one that is dropped. -/
theorem dropReturn_append_return (line : List Char) : dropReturn (line ++ ['\r']) = line := by
  simp [dropReturn]

/-- The lines of a text that is written line by line: an ending that ends in a line feed loses it,
    and with it the carriage return before it. -/
theorem sourceLines_flatMap (hlines : ∀ line ∈ lines, '\n' ∉ line) (hending : '\n' ∉ ending) :
    sourceLines (lines.flatMap (· ++ (ending ++ ['\n']))) =
      lines.map fun line => dropReturn (line ++ ending) := by
  induction lines with
  | nil => rfl
  | cons line lines ih =>
    obtain ⟨hline, hrest⟩ := List.forall_mem_cons.1 hlines
    have hpart : '\n' ∉ line ++ ending := by simp [hline, hending]
    have htext : (line :: lines).flatMap (· ++ (ending ++ ['\n'])) =
        (line ++ ending) ++ '\n' :: lines.flatMap (· ++ (ending ++ ['\n'])) := by
      simp
    rw [htext, sourceLines_append_feed hpart, ih hrest, List.map_cons]

end Text

namespace Grid

variable {g : Grid} {source : String} {line : List Char}

/-- The characters of a grid, row by row. -/
def glyphs (g : Grid) : List (List Char) := g.toRows.map (List.map Cell.glyph)

/-- The grid as a text: the characters of every row, with the given ending after each row. -/
def written (g : Grid) (ending : List Char) : String :=
  String.ofList (g.glyphs.flatMap (· ++ ending))

/-- The cells of a parsed grid are those that its characters make, and no line feed is among
    them. -/
theorem cells_of_toRows_parse {row : List Cell} (h : row ∈ (parse source).toRows) :
    ∀ cell ∈ row, cell = .ofChar cell.glyph ∧ cell.glyph ≠ '\n' := by
  intro cell hcell
  obtain ⟨r, hr, rfl⟩ := List.mem_map.1 h
  obtain ⟨hchar, hmark⟩ := cells_of_parse (Array.mem_toList_iff.1 hr) (Array.mem_toList_iff.1 hcell)
  refine ⟨hchar, fun hfeed => hmark (.inl ?_)⟩
  rw [hchar, hfeed]
  rfl

/-- The characters of a parsed grid make its rows again. -/
theorem map_ofChar_glyphs (source : String) :
    (parse source).glyphs.map (List.map Cell.ofChar) = (parse source).toRows := by
  rw [glyphs, List.map_map]
  refine (List.map_congr_left fun row hrow => ?_).trans (List.map_id _)
  show (row.map Cell.glyph).map Cell.ofChar = row
  rw [List.map_map]
  refine (List.map_congr_left fun cell hcell => ?_).trans (List.map_id _)
  exact (cells_of_toRows_parse hrow cell hcell).1.symm

/-- The character in a column of a row is that of the cell there. -/
theorem getElem?_glyphs (g : Grid) (i j : Nat) :
    g.glyphs[j]?.bind (·[i]?) = (g.rows[j]?.bind (·[i]?)).map Cell.glyph := by
  rw [glyphs, toRows, List.map_map, List.getElem?_map, Array.getElem?_toList]
  cases g.rows[j]? with
  | none => rfl
  | some row => simp

/-- The rows of a parsed grid have no line feeds. -/
theorem feed_notin_glyphs (h : line ∈ (parse source).glyphs) : '\n' ∉ line := by
  obtain ⟨row, hrow, rfl⟩ := List.mem_map.1 h
  intro hfeed
  obtain ⟨cell, hcell, hglyph⟩ := List.mem_map.1 hfeed
  exact (cells_of_toRows_parse hrow cell hcell).2 hglyph

/-- A parsed grid that is written out is read as its rows with the endings, of which the line feeds
    and the carriage returns right before them are breaks. -/
theorem parse_written (source : String) (ending : List Char) (hending : '\n' ∉ ending) :
    parse ((parse source).written (ending ++ ['\n'])) =
      ofRows ((parse source).glyphs.map fun line =>
        (Text.dropReturn (line ++ ending)).map Cell.ofChar) := by
  rw [parse_eq_ofRows, written, String.toList_ofList,
    Text.sourceLines_flatMap (fun line => feed_notin_glyphs) hending, List.map_map]
  rfl

/-- A parsed grid is made of its own rows. -/
theorem ofRows_toRows_parse (source : String) : ofRows (parse source).toRows = parse source :=
  ofRows_toRows_ofRows _

/-- Where a row has lost the carriage return at its end the grid has a blank. -/
theorem cellAt_dropReturn {lines : List (List Char)} {j : Nat} (hline : lines[j]? = some line)
    (hreturn : line.getLast? = some '\r') :
    cellAt (lines.map fun line => (Text.dropReturn line).map Cell.ofChar) (line.length - 1) j =
      .blank := by
  have hshort : (Text.dropReturn line)[line.length - 1]? = none := by
    simp [Text.dropReturn, hreturn]
  simp [cellAt, hline, hshort]

/-- A grid that comes back from its rows without the carriage returns at their ends has none. -/
theorem return_notin_of_reparse
    (h : ofRows (g.glyphs.map fun line => (Text.dropReturn line).map Cell.ofChar) = g)
    (hline : line ∈ g.glyphs) : line.getLast? ≠ some '\r' := by
  intro hreturn
  obtain ⟨j, hj⟩ := List.mem_iff_getElem?.1 hline
  -- The last character of the line is in the last column of row `j`.
  have hlength : line.length = g.width := by
    obtain ⟨row, hrow, rfl⟩ := List.mem_map.1 hline
    rw [List.length_map, length_of_mem_toRows hrow]
  have hpos : line.length ≠ 0 := by
    intro hzero
    simp [List.length_eq_zero_iff.1 hzero] at hreturn
  have hheight : j < g.height := by
    have hlt := (List.getElem?_eq_some_iff.1 hj).1
    simpa [glyphs, toRows, height] using hlt
  -- There the grid shows the carriage return, but the grid that is made shows a blank.
  have hshown : (g.rows[j]?.bind (·[line.length - 1]?)).map Cell.glyph = some '\r' := by
    rw [← getElem?_glyphs, hj, Option.bind_some, ← List.getLast?_eq_getElem?, hreturn]
  have hblank := cellAt_dropReturn hj hreturn
  have hwidth : line.length - 1 < g.width := by omega
  have hmade := getElem?_ofRows (i := line.length - 1) (j := j) (h.symm ▸ hwidth) (h.symm ▸ hheight)
  rw [h, hblank] at hmade
  rw [hmade] at hshown
  exact absurd hshown (by decide)

/-- What a text is parsed to can be written out and parsed again: with a carriage return and a line
    feed after every row the same grid comes back, and with line feeds alone it comes back if and
    only if no row, filled up with blanks, ends in a carriage return. -/
theorem reparse_written (source : String) :
    parse ((parse source).written ['\r', '\n']) = parse source ∧
      (parse ((parse source).written ['\n']) = parse source ↔
        ∀ line ∈ (parse source).glyphs, line.getLast? ≠ some '\r') := by
  have hrows : ofRows ((parse source).glyphs.map (List.map Cell.ofChar)) = parse source := by
    rw [map_ofChar_glyphs, ofRows_toRows_parse]
  -- Line feeds alone bring no carriage return, so the breaks take those at the ends of the rows.
  have hplain : parse ((parse source).written ['\n']) =
      ofRows ((parse source).glyphs.map fun line => (Text.dropReturn line).map Cell.ofChar) := by
    simpa using parse_written source [] (by simp)
  refine ⟨?_, fun h line hline hreturn => ?_, fun h => ?_⟩
  · -- With a carriage return of its own the ending leaves every row as it is.
    have hboth := parse_written source ['\r'] (by decide)
    simp only [Text.dropReturn_append_return] at hboth
    exact hboth.trans hrows
  · exact return_notin_of_reparse (hplain.symm.trans h) hline hreturn
  · rw [hplain]
    refine (congrArg ofRows (List.map_congr_left fun line hline => ?_)).trans hrows
    rw [Text.dropReturn_of_getLast?_ne (h line hline)]

/-- The row of a single carriage return comes back as a row without cells. -/
example : (parse ((parse "\r").written ['\n'])).bounds = ⟨0, 1⟩ ∧ (parse "\r").bounds = ⟨1, 1⟩ := by
  decide +kernel

end Grid

end Fish
