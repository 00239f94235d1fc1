import Fish.Proofs.CheckedMoves

/-!
# The cells of a grid

A grid is made of rows of any lengths. Its cell in a column of a row is the one that was given
there, or a blank if the row was too short. Outside its bounds the plane shows the same cells again
and again: a lookup folds the point into the bounds, and so does a jump of the pointer, so a point
shows what the pointer finds after a jump to it. `Grid.toRows` are the rows of the finished grid;
made into a grid once more they give the same one.

Main lemmas:

* `Grid.getElem?_ofRows`   the cell in a column of a row
* `Grid.lookup_add_mul`    the plane repeats itself with the sides of the grid
* `Grid.ofRows_toRows`     the rows of a grid make it again
* `Grid.cells_of_rows`     all of it about the given rows
-/

namespace Fish

/-- Folding does not see multiples of the sides. -/
theorem Point.wrap_add_mul (p size : Point) (a b : Int) :
    Point.wrap ⟨p.x + a * size.x, p.y + b * size.y⟩ size = p.wrap size := by
  ext <;> simp [wrap]

namespace Grid

variable {g : Grid} {rows : List (List Cell)} {row : List Cell} {width i j : Nat}

/-! ## Cells from given rows -/

/-- The cell that the given rows have in a column of a row; a blank where they have none. -/
def cellAt (rows : List (List Cell)) (column row : Nat) : Cell :=
  (rows[row]?.bind (·[column]?)).getD .blank

/-- A row has its own cells first, and blanks after them. -/
theorem getElem?_padRow (hi : i < width) : (padRow width row)[i]? = some (row[i]?.getD .blank) := by
  rw [padRow, List.getElem?_toArray, List.getElem?_append]
  split
  · next hlt => simp [hlt]
  · next hge =>
    have hshort : row[i]? = none := List.getElem?_eq_none (by omega)
    rw [hshort, List.getElem?_replicate, if_pos (by omega), Option.getD_none]

/-- A grid is as high as there are rows. -/
theorem height_ofRows (rows : List (List Cell)) : (ofRows rows).height = rows.length := by
  simp [height, ofRows]

/-- The cell of a grid in a column of a row is the one that was given there, or a blank. -/
theorem getElem?_ofRows (hi : i < (ofRows rows).width) (hj : j < (ofRows rows).height) :
    (ofRows rows).rows[j]?.bind (·[i]?) = some (cellAt rows i j) := by
  rw [height_ofRows] at hj
  have hrow : (ofRows rows).rows[j]? = some (padRow (ofRows rows).width rows[j]) := by
    simp [ofRows, hj]
  have hgiven : rows[j]? = some rows[j] := List.getElem?_eq_getElem hj
  rw [hrow, Option.bind_some, getElem?_padRow hi, cellAt, hgiven, Option.bind_some]

/-! ## What the plane shows -/

/-- No point shows a cell if a side of the grid is zero, and every point does otherwise. -/
theorem lookup_eq_none_iff (g : Grid) (p : Point) :
    g.lookup p = none ↔ g.width = 0 ∨ g.height = 0 := by
  have hsome := lookup_isSome_iff (g := g) p
  rw [← isEmpty_iff, ← Option.not_isSome_iff_eq_none, hsome, Bool.not_eq_false]

/-- The plane repeats itself with the sides of the grid. -/
theorem lookup_add_mul (g : Grid) (p : Point) (a b : Int) :
    g.lookup ⟨p.x + a * g.width, p.y + b * g.height⟩ = g.lookup p := by
  have hfold := Point.wrap_add_mul p g.bounds a b
  simp only [bounds_x, bounds_y] at hfold
  rw [← lookup_wrap, hfold, lookup_wrap]

/-- The pointer finds after a jump what the point shows that the jump was aimed at. -/
theorem lookup_jump (hcells : g.isEmpty = false) (p : Point) (q : Pointer) :
    (q.jump p g.bounds).position.Inside g.bounds ∧
      g.lookup (q.jump p g.bounds).position = g.lookup p := by
  obtain ⟨hx, hy⟩ := bounds_pos hcells
  refine ⟨Pointer.inside_jump q p hx hy, ?_⟩
  rw [Pointer.jump, if_neg (by omega)]
  exact lookup_wrap g p

/-! ## A grid from its own rows -/

/-- The rows of a grid. -/
def toRows (g : Grid) : List (List Cell) := g.rows.toList.map Array.toList

/-- The rows of a grid are as long as it is wide. -/
theorem length_of_mem_toRows (h : row ∈ g.toRows) : row.length = g.width := by
  obtain ⟨r, hr, rfl⟩ := List.mem_map.1 h
  rw [Array.length_toList]
  exact g.size_of_mem_rows r (Array.mem_toList_iff.1 hr)

/-- Rows of one length have no longer one among them. -/
theorem longest_of_forall_length (hne : rows ≠ []) (h : ∀ row ∈ rows, row.length = width) :
    longest rows = width := by
  have hlengths : rows.map List.length = List.replicate rows.length width :=
    List.eq_replicate_iff.2 ⟨List.length_map _, by simpa using h⟩
  have hpos : rows.length ≠ 0 := by simpa using hne
  rw [longest_eq_max?, hlengths, List.max?_replicate_of_pos (by omega), Option.getD_some]

/-- A row that is as long as it should be is left as it is. -/
theorem padRow_of_length (h : row.length = width) : padRow width row = row.toArray := by
  simp [padRow, h]

/-- The rows of a grid make it again, if it has rows; without rows it must not be wide. -/
theorem ofRows_toRows (h : g.height = 0 → g.width = 0) : ofRows g.toRows = g := by
  have hwidth : longest g.toRows = g.width := by
    by_cases hrows : g.toRows = []
    · have hheight : g.height = 0 := by
        simpa [toRows, height] using hrows
      rw [hrows, h hheight]
      rfl
    · exact longest_of_forall_length hrows fun row hrow => length_of_mem_toRows hrow
  -- The rows are as long as the grid is wide, so nothing is filled up.
  have hpad : g.toRows.map (padRow g.width) = g.rows.toList := by
    rw [toRows, List.map_map]
    refine (List.map_congr_left fun row hrow => ?_).trans (List.map_id _)
    have hsize : row.toList.length = g.width :=
      length_of_mem_toRows (List.mem_map_of_mem hrow)
    exact padRow_of_length hsize
  ext1
  · exact hwidth
  · show (g.toRows.map (padRow (longest g.toRows))).toArray = g.rows
    rw [hwidth, hpad]

/-- For a grid that is made of rows this holds in any case. -/
theorem ofRows_toRows_ofRows (rows : List (List Cell)) :
    ofRows (ofRows rows).toRows = ofRows rows := by
  apply ofRows_toRows
  intro hheight
  rw [height_ofRows, List.length_eq_zero_iff] at hheight
  rw [hheight]
  rfl

/-! ## All about the given rows -/

/-- A grid is as wide as the longest of the given rows and as high as there are rows, all its rows
    have that width, and it has the given cells, with blanks where a row was shorter. A lookup takes
    no remainder by zero, and it shows nothing if and only if a side is zero, wherever the point is.
    Otherwise every point, however far, folds into the bounds, and it shows the cell in the column
    and row that it folds to, as all points do that are multiples of the sides away. The points
    within the bounds are those that folding leaves alone. A jump aimed at the point takes the
    pointer into the bounds, and there it finds the cell that the point shows. The rows of the grid,
    made into a grid, give the same one. -/
theorem cells_of_rows (rows : List (List Cell)) :
    let g := ofRows rows
    (g.width = ((rows.map List.length).max?).getD 0 ∧ g.height = rows.length ∧
      (∀ row ∈ g.rows, row.size = g.width) ∧
      ∀ i j, i < g.width → j < g.height →
        g.rows[j]?.bind (·[i]?) = some (cellAt rows i j)) ∧
    (∀ p : Point, g.checkedLookup p = some (g.lookup p) ∧
      (g.lookup p = none ↔ g.width = 0 ∨ g.height = 0)) ∧
    (g.width ≠ 0 → g.height ≠ 0 → ∀ p : Point,
      (0 ≤ p.x % g.width ∧ p.x % g.width < g.width) ∧
      (0 ≤ p.y % g.height ∧ p.y % g.height < g.height) ∧
      g.lookup p = g.rows[(p.y % g.height).toNat]?.bind (·[(p.x % g.width).toNat]?) ∧
      (∀ a b : Int, g.lookup ⟨p.x + a * g.width, p.y + b * g.height⟩ = g.lookup p) ∧
      (p.Inside g.bounds ↔ p.wrap g.bounds = p) ∧
      ∀ q : Pointer, q.checkedJump p g.bounds = some (q.jump p g.bounds) ∧
        (q.jump p g.bounds).position.Inside g.bounds ∧
        g.lookup (q.jump p g.bounds).position = g.lookup p) ∧
    ofRows g.toRows = g := by
  intro g
  refine ⟨⟨longest_eq_max? rows, height_ofRows rows, g.size_of_mem_rows,
      fun i j => getElem?_ofRows⟩,
    fun p => ⟨g.checkedLookup_eq p, g.lookup_eq_none_iff p⟩, fun hwidth hheight p => ?_,
    ofRows_toRows_ofRows rows⟩
  have hcells : g.isEmpty = false := by simp [isEmpty, hwidth, hheight]
  obtain ⟨hx, hy⟩ := bounds_pos hcells
  obtain ⟨hinx, hiny⟩ := Point.inside_wrap p hx hy
  refine ⟨hinx, hiny, ?_, g.lookup_add_mul p, (Point.wrap_eq_self_iff p hx hy).symm, fun q => ?_⟩
  · rw [lookup, hcells, if_neg Bool.false_ne_true]
    rfl
  · exact ⟨q.checkedJump_eq p g.bounds, lookup_jump hcells p q⟩

/-- Rows of three lengths, looked at from the least word to the left of them. -/
theorem cells_of_rows_of_three_lengths :
    let rows : List (List Cell) := [[], [.ofChar 'a'], [.ofChar 'b', .ofChar 'c', .ofChar 'd']]
    let g := ofRows rows
    let p : Point := ⟨-0x8000000000000000, 2⟩
    g.width ≠ 0 ∧ g.height ≠ 0 ∧
      g.lookup p = g.rows[(p.y % g.height).toNat]?.bind (·[(p.x % g.width).toNat]?) ∧
      g.lookup p = some (.ofChar 'c') := by
  intro rows g p
  have hwidth : g.width ≠ 0 := by decide
  have hheight : g.height ≠ 0 := by decide
  obtain ⟨-, -, hcells, -⟩ := cells_of_rows rows
  obtain ⟨-, -, hlookup, -⟩ := hcells hwidth hheight p
  exact ⟨hwidth, hheight, hlookup, hlookup.trans (by decide)⟩

end Grid

end Fish
