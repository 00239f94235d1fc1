import Fish.Cell

/-!
# The program grid

A program is a rectangle of cells, addressed as a torus. `Grid.ofRows` fills rows of any lengths
up with blanks on the right to the length of the longest, and `Grid.parse` takes the rows from the
lines of a text. A line feed ends a row, and what follows the last one is a row only if it is not
empty. A grid never changes once it is made.

Main lemmas:

* `Grid.lookup_isSome_iff`    every point of a grid that has cells shows one
* `Grid.lookup_wrap`          points that fold to the same place show the same cell
-/

namespace Fish

/-- A rectangle of cells. -/
@[ext] structure Grid where
  width : Nat
  rows : Array (Array Cell)
  size_of_mem_rows : ∀ row ∈ rows, row.size = width
deriving DecidableEq

namespace Grid

/-- Fills a row up with blanks on the right. -/
def padRow (width : Nat) (row : List Cell) : Array Cell :=
  (row ++ List.replicate (width - row.length) Cell.blank).toArray

/-- The length of the longest row. -/
def longest (rows : List (List Cell)) : Nat := (rows.map List.length).foldr max 0

/-- No row is longer than the longest. -/
theorem length_le_longest {rows : List (List Cell)} {row : List Cell} (h : row ∈ rows) :
    row.length ≤ longest rows := by
  induction rows with
  | nil => cases h
  | cons r rs ih =>
    simp only [longest, List.map_cons, List.foldr_cons]
    rcases List.mem_cons.1 h with rfl | h
    · exact Nat.le_max_left ..
    · exact Nat.le_trans (ih h) (Nat.le_max_right ..)

/-- The longest row is the greatest of all lengths, and without rows there is none. -/
theorem longest_eq_max? (rows : List (List Cell)) :
    longest rows = ((rows.map List.length).max?).getD 0 := by
  unfold longest
  cases rows.map List.length with
  | nil => rfl
  | cons n ns =>
    rw [List.max?_cons', Option.getD_some, List.foldr_cons]
    -- The library folds from the left with the first length as its start, so that start is what the
    -- induction varies.
    induction ns generalizing n with
    | nil => simp
    | cons k ns ih =>
      rw [List.foldl_cons, ← ih, List.foldr_cons]
      omega

/-- A row that is no longer than the width is filled up to it. -/
theorem size_padRow {width : Nat} {row : List Cell} (h : row.length ≤ width) :
    (padRow width row).size = width := by
  simp [padRow]; omega

/-- The grid of the given rows, filled up with blanks to the length of the longest. -/
def ofRows (rows : List (List Cell)) : Grid where
  width := longest rows
  rows := (rows.map (padRow (longest rows))).toArray
  size_of_mem_rows := by
    intro row h
    obtain ⟨r, hr, rfl⟩ := List.mem_map.1 (List.mem_toArray.1 h)
    exact size_padRow (length_le_longest hr)

/-- The rows of a sequence of cells: the mark of a line's end closes a row, and the mark of the
    input's end closes the sequence. A last row without cells does not count. -/
def rowsOf : List Cell → List (List Cell)
  | [] => []
  | c :: cs =>
    match c.instruction with
    | .endOfInput => []
    | .endOfLine => [] :: rowsOf cs
    | _ =>
      match rowsOf cs with
      -- Nothing is left after the cell, so it ends a last row that no mark closes.
      | [] => [[c]]
      | row :: rows => (c :: row) :: rows

/-- The grid of a program text. -/
def parse (src : String) : Grid := ofRows (rowsOf (SourceText.ofString src).cells)

/-- The number of rows. -/
def height (g : Grid) : Nat := g.rows.size

/-- Width and height together. -/
def bounds (g : Grid) : Point := ⟨g.width, g.height⟩

/-- The grid has no cell: it has no rows, or all of them are empty. -/
def isEmpty (g : Grid) : Bool := g.width = 0 || g.height = 0

/-- The cell at a point inside the bounds. -/
def cell? (g : Grid) (p : Point) : Option Cell := do
  let row ← g.rows[p.y.toNat]?
  row[p.x.toNat]?

/-- The cell that a point of the torus shows; `none` only for a grid without cells. -/
def lookup (g : Grid) (p : Point) : Option Cell :=
  if g.isEmpty then none else g.cell? (p.wrap g.bounds)

@[simp] theorem bounds_x (g : Grid) : g.bounds.x = g.width := rfl

@[simp] theorem bounds_y (g : Grid) : g.bounds.y = g.height := rfl

/-- A grid has no cells exactly if one of its sides is zero. -/
theorem isEmpty_iff {g : Grid} : g.isEmpty = true ↔ g.width = 0 ∨ g.height = 0 := by
  simp [isEmpty]

/-- The sides of a grid that has cells are positive. -/
theorem bounds_pos {g : Grid} (h : g.isEmpty = false) : 0 < g.bounds.x ∧ 0 < g.bounds.y := by
  have hsides : ¬(g.width = 0 ∨ g.height = 0) := by rw [← isEmpty_iff, h]; simp
  simp only [bounds_x, bounds_y]
  omega

/-- An empty grid has no cell at any point. -/
theorem cell?_of_isEmpty {g : Grid} (h : g.isEmpty = true) (p : Point) : g.cell? p = none := by
  rw [cell?]
  cases hrow : g.rows[p.y.toNat]? with
  | none => rfl
  | some row =>
    obtain ⟨hlt, rfl⟩ := Array.getElem?_eq_some_iff.1 hrow
    have hsize := g.size_of_mem_rows _ (Array.getElem_mem hlt)
    have hheight : g.height ≠ 0 := by rw [height]; omega
    -- There is a row, so it is the width that must be zero.
    have hwidth : g.width = 0 := (isEmpty_iff.1 h).resolve_right hheight
    exact Array.getElem?_eq_none (by omega)

/-- Inside the bounds there is a cell at every point. -/
theorem cell?_isSome {g : Grid} {p : Point} (h : p.Inside g.bounds) : (g.cell? p).isSome := by
  obtain ⟨⟨hx0, hx⟩, ⟨hy0, hy⟩⟩ := h
  have hy' : p.y.toNat < g.rows.size := by simp only [bounds_y, height] at hy; omega
  have hw := g.size_of_mem_rows _ (Array.getElem_mem hy')
  have hx' : p.x.toNat < g.rows[p.y.toNat].size := by simp only [bounds_x] at hx; omega
  simp [cell?, hy', hx']

/-- A point shows a cell exactly if the grid has cells. -/
theorem lookup_isSome_iff {g : Grid} (p : Point) : (g.lookup p).isSome ↔ g.isEmpty = false := by
  unfold lookup
  cases h : g.isEmpty with
  | true => simp
  | false =>
    obtain ⟨hx, hy⟩ := bounds_pos h
    simpa using cell?_isSome (Point.inside_wrap p hx hy)

/-- Points that fold to the same place show the same cell. -/
theorem lookup_wrap (g : Grid) (p : Point) : g.lookup (p.wrap g.bounds) = g.lookup p := by
  simp [lookup]

/-- What a point of the torus shows is a cell of the grid. -/
theorem mem_of_lookup {g : Grid} {p : Point} {cell : Cell} (h : g.lookup p = some cell) :
    ∃ row ∈ g.rows, cell ∈ row := by
  rw [lookup] at h
  split at h
  · cases h
  · obtain ⟨row, hrow, hcell⟩ := Option.bind_eq_some_iff.1 h
    exact ⟨row, Array.mem_of_getElem? hrow, Array.mem_of_getElem? hcell⟩

end Grid

end Fish
