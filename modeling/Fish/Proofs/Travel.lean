import Fish.Machine.Run

/-!
# The line of travel

As long as nothing turns the pointer it travels along one line of the grid: along its row if it is
heading sideways, along its column if it is heading up or down. `Pointer.reach` is the point that
lies a number of paces ahead, `Pointer.paced` is the pointer after so many paces, and `Grid.ahead`
lists the cells that are met from the present one on until the line begins anew. They are the cells
of the line, so a cell that is on it at all is met within its length.

Main lemmas:

* `Pointer.advance_paced`    one pace more
* `Grid.line_paced`          paces do not leave the line
* `Grid.getElem?_ahead`      the cells ahead are those at the points ahead
* `Grid.exists_lookup_reach` every cell of the line is met within its length
-/

namespace Fish

namespace Pointer

/-- The point that lies a number of paces ahead, on a plane without edges. -/
def reach (p : Pointer) (k : Nat) : Point :=
  ⟨p.position.x + k * p.heading.vector.x, p.position.y + k * p.heading.vector.y⟩

/-- The pointer after a number of paces. -/
def paced (p : Pointer) (bounds : Point) (k : Nat) : Pointer :=
  { p with position := (p.reach k).wrap bounds }

variable {p : Pointer} {bounds : Point}

/-- No pace leads nowhere. -/
theorem paced_zero (h : p.position.Inside bounds) : p.paced bounds 0 = p := by
  have hzero : p.reach 0 = p.position := by
    ext <;> simp [reach]
  rw [paced, hzero, h.wrap_eq]

/-- One pace more. The position is folded after every pace, which makes no difference to where the
    pointer gets. -/
theorem advance_paced (p : Pointer) {bounds : Point} (hx : 0 < bounds.x) (hy : 0 < bounds.y)
    (k : Nat) : (p.paced bounds k).advance bounds = p.paced bounds (k + 1) := by
  have hsides : ¬(bounds.x = 0 ∨ bounds.y = 0) := by omega
  -- One coordinate: a remainder may be taken before the pace or after it.
  have hpace (a v side : Int) :
      ((a + k * v) % side + v) % side = (a + (k + 1 : Nat) * v) % side := by
    rw [Int.emod_add_emod, Int.natCast_succ, Int.add_mul, Int.one_mul, Int.add_assoc]
  have hfold : ((p.reach k).wrap bounds + p.heading.vector).wrap bounds =
      (p.reach (k + 1)).wrap bounds :=
    Point.ext (hpace p.position.x p.heading.vector.x bounds.x)
      (hpace p.position.y p.heading.vector.y bounds.y)
  rw [advance, jump, if_neg hsides]
  exact congrArg (fun position => { p with position }) hfold

/-- An advance is a way of one pace. -/
theorem advance_eq_paced (h : p.position.Inside bounds) : p.advance bounds = p.paced bounds 1 := by
  obtain ⟨⟨hx0, hx⟩, ⟨hy0, hy⟩⟩ := id h
  have hone := p.advance_paced (show 0 < bounds.x by omega) (show 0 < bounds.y by omega) 0
  rwa [paced_zero h] at hone

end Pointer

/-! ## Lists by index -/

section

variable {α : Type} {f : Nat → Option α} {n : Nat}

/-- A function that is defined for all numbers below a bound makes a list of that length. -/
theorem length_filterMap_range (h : ∀ i < n, (f i).isSome) :
    ((List.range n).filterMap f).length = n := by
  induction n with
  | zero => rfl
  | succ n ih =>
    obtain ⟨a, ha⟩ := Option.isSome_iff_exists.1 (h n (Nat.lt_succ_self n))
    have hn := ih fun i hi => h i (Nat.lt_succ_of_lt hi)
    simp [List.range_succ, ha, hn]

/-- The list has its values in order. -/
theorem getElem?_filterMap_range (h : ∀ i < n, (f i).isSome) {i : Nat} (hi : i < n) :
    ((List.range n).filterMap f)[i]? = f i := by
  -- The induction is on the bound; a new value stands at the end of the list.
  induction n with
  | zero => exact absurd hi (Nat.not_lt_zero i)
  | succ n ih =>
    have hbelow : ∀ i < n, (f i).isSome := fun i hi => h i (Nat.lt_succ_of_lt hi)
    have hlength := length_filterMap_range hbelow
    rw [List.range_succ, List.filterMap_append]
    rcases Nat.lt_or_eq_of_le (Nat.le_of_lt_succ hi) with hlt | rfl
    · rw [List.getElem?_append_left (by omega), ih hbelow hlt]
    · -- The last value stands after as many as the list of the others has.
      obtain ⟨a, ha⟩ := Option.isSome_iff_exists.1 (h i hi)
      rw [List.getElem?_append_right (by omega), hlength]
      simp [ha]

end

/-! ## The cells of the line -/

namespace Grid

variable {g : Grid} {p : Pointer} {cell : Cell}

/-- The length of the lines that a heading travels along. -/
def extent (g : Grid) : Heading → Nat
  | .left => g.width
  | .right => g.width
  | .up => g.height
  | .down => g.height

/-- The line that a pointer travels along: its row from the left, or its column from the top. -/
def line (g : Grid) (p : Pointer) : List Cell :=
  match p.heading with
  | .left | .right => (List.range g.width).filterMap fun x : Nat => g.cell? ⟨x, p.position.y⟩
  | .up | .down => (List.range g.height).filterMap fun y : Nat => g.cell? ⟨p.position.x, y⟩

/-- The cells that a pointer meets on its line, the present one first, until the line begins
    anew. -/
def ahead (g : Grid) (p : Pointer) : List Cell :=
  (List.range (g.extent p.heading)).filterMap fun k => g.lookup (p.reach k)

/-- A pointer inside the grid has as many cells on its line as the grid is wide or high. -/
theorem length_line (h : p.position.Inside g.bounds) :
    (g.line p).length = g.extent p.heading := by
  obtain ⟨hx, hy⟩ := h
  have hrow : ∀ x : Nat, x < g.width → (g.cell? ⟨x, p.position.y⟩).isSome := fun x hlt =>
    cell?_isSome ⟨⟨Int.natCast_nonneg x, Int.ofNat_lt.2 hlt⟩, hy⟩
  have hcolumn : ∀ y : Nat, y < g.height → (g.cell? ⟨p.position.x, y⟩).isSome := fun y hlt =>
    cell?_isSome ⟨hx, ⟨Int.natCast_nonneg y, Int.ofNat_lt.2 hlt⟩⟩
  rw [line]
  cases p.heading with
  | left | right => exact length_filterMap_range hrow
  | up | down => exact length_filterMap_range hcolumn

/-- A grid without cells has none on any line. -/
theorem isEmpty_of_mem_line (h : cell ∈ g.line p) : g.isEmpty = false := by
  cases hempty : g.isEmpty with
  | false => rfl
  | true =>
    rw [line] at h
    cases hheading : p.heading <;> simp [hheading, cell?_of_isEmpty hempty] at h

/-- In a grid that has cells there is one at every point ahead. -/
theorem lookup_reach_isSome (h : g.isEmpty = false) (k : Nat) : (g.lookup (p.reach k)).isSome :=
  (lookup_isSome_iff _).2 h

/-- There are as many cells ahead as on the line. -/
theorem length_ahead (h : g.isEmpty = false) : (g.ahead p).length = g.extent p.heading :=
  length_filterMap_range fun k _ => lookup_reach_isSome h k

/-- The cells ahead are those at the points ahead. -/
theorem getElem?_ahead (h : g.isEmpty = false) {k : Nat} (hk : k < g.extent p.heading) :
    (g.ahead p)[k]? = g.lookup (p.reach k) :=
  getElem?_filterMap_range (fun k _ => lookup_reach_isSome h k) hk

/-- Paces do not leave the line. -/
theorem line_paced (h : p.position.Inside g.bounds) (k : Nat) :
    g.line (p.paced g.bounds k) = g.line p := by
  obtain ⟨⟨hx0, hx⟩, ⟨hy0, hy⟩⟩ := h
  -- The coordinate across the line is the same after every pace.
  have hrow : p.position.y % (g.height : Int) = p.position.y := Int.emod_eq_of_lt hy0 hy
  have hcolumn : p.position.x % (g.width : Int) = p.position.x := Int.emod_eq_of_lt hx0 hx
  simp only [line, Pointer.paced, Pointer.reach, Point.wrap]
  cases p.heading with
  | left | right => simp [Heading.vector, hrow]
  | up | down => simp [Heading.vector, hcolumn]

/-- From a place on a circle every other place is reached in fewer steps than there are places,
    whichever way round. -/
theorem exists_emod_eq (a : Int) {b side s : Int} (hb0 : 0 ≤ b) (hb : b < side) (hs : s * s = 1) :
    ∃ k : Nat, (k : Int) < side ∧ (a + k * s) % side = b := by
  have hnonneg : 0 ≤ (b - a) * s % side := Int.emod_nonneg _ (by omega)
  -- The pace is its own inverse, so the distance times the pace is the number of paces.
  refine ⟨((b - a) * s % side).toNat, ?_, ?_⟩
  · rw [Int.toNat_of_nonneg hnonneg]
    exact Int.emod_lt_of_pos _ (by omega)
  · calc (a + ((b - a) * s % side).toNat * s) % side
        = (a + (b - a) * s % side * s) % side := by rw [Int.toNat_of_nonneg hnonneg]
      _ = (a + (b - a) * s * s) % side := by
          rw [Int.add_emod, Int.mul_emod, Int.emod_emod, ← Int.mul_emod, ← Int.add_emod]
      _ = (a + (b - a)) % side := by rw [Int.mul_assoc, hs, Int.mul_one]
      _ = b % side := by rw [show a + (b - a) = b by omega]
      _ = b := Int.emod_eq_of_lt hb0 hb

/-- A grid with a place inside has cells. -/
theorem isEmpty_of_inside {q : Point} (h : q.Inside g.bounds) : g.isEmpty = false := by
  obtain ⟨⟨hx0, hx⟩, ⟨hy0, hy⟩⟩ := h
  rw [bounds_x] at hx
  rw [bounds_y] at hy
  cases hempty : g.isEmpty with
  | false => rfl
  | true => rcases isEmpty_iff.1 hempty with hside | hside <;> omega

/-- Every cell of the line is met within its length. -/
theorem exists_lookup_reach (h : p.position.Inside g.bounds) (hcell : cell ∈ g.line p) :
    ∃ k < g.extent p.heading, g.lookup (p.reach k) = some cell := by
  have hcells := isEmpty_of_inside h
  obtain ⟨⟨hx0, hx⟩, ⟨hy0, hy⟩⟩ := h
  -- The coordinate across the line stays, the one along it gets everywhere.
  have hrow : p.position.y % (g.height : Int) = p.position.y := Int.emod_eq_of_lt hy0 hy
  have hcolumn : p.position.x % (g.width : Int) = p.position.x := Int.emod_eq_of_lt hx0 hx
  have hlookup (q : Point) : g.lookup q = g.cell? (q.wrap g.bounds) := by
    rw [lookup, hcells, if_neg Bool.false_ne_true]
  simp only [hlookup, line, extent, Pointer.reach, Point.wrap, bounds_x, bounds_y] at hcell ⊢
  cases hheading : p.heading with
  | left | right =>
    simp only [hheading, List.mem_filterMap, List.mem_range] at hcell
    obtain ⟨x, hlt, hc⟩ := hcell
    -- A pace along the line is 1 or -1, its own inverse in either case.
    have hsquare : p.heading.vector.x * p.heading.vector.x = 1 := by
      rw [hheading]
      rfl
    obtain ⟨k, hk, hreach⟩ :=
      exists_emod_eq p.position.x (Int.natCast_nonneg x) (Int.ofNat_lt.2 hlt) hsquare
    rw [hheading] at hreach
    refine ⟨k, Int.ofNat_lt.1 hk, ?_⟩
    rw [hreach]
    simpa [Heading.vector, hrow] using hc
  | up | down =>
    simp only [hheading, List.mem_filterMap, List.mem_range] at hcell
    obtain ⟨y, hlt, hc⟩ := hcell
    have hsquare : p.heading.vector.y * p.heading.vector.y = 1 := by
      rw [hheading]
      rfl
    obtain ⟨k, hk, hreach⟩ :=
      exists_emod_eq p.position.y (Int.natCast_nonneg y) (Int.ofNat_lt.2 hlt) hsquare
    rw [hheading] at hreach
    refine ⟨k, Int.ofNat_lt.1 hk, ?_⟩
    rw [hreach]
    simpa [Heading.vector, hcolumn] using hc

/-- The present cell is on the line. -/
theorem mem_line (h : p.position.Inside g.bounds) (hcell : g.lookup p.position = some cell) :
    cell ∈ g.line p := by
  have hhere : g.cell? p.position = some cell := by
    rwa [lookup, isEmpty_of_inside h, if_neg Bool.false_ne_true, h.wrap_eq] at hcell
  obtain ⟨⟨hx0, hx⟩, ⟨hy0, hy⟩⟩ := h
  rw [line]
  cases p.heading with
  | left | right =>
    refine List.mem_filterMap.2 ⟨p.position.x.toNat, List.mem_range.2 ?_, ?_⟩
    · rw [bounds_x] at hx
      omega
    · rwa [Int.toNat_of_nonneg hx0]
  | up | down =>
    refine List.mem_filterMap.2 ⟨p.position.y.toNat, List.mem_range.2 ?_, ?_⟩
    · rw [bounds_y] at hy
      omega
    · rwa [Int.toNat_of_nonneg hy0]

end Grid

end Fish
