import Fish.Proofs.Lockstep

/-!
# A grid repeated

The plane of a program is a torus, and a torus has no edges: a program cannot tell a grid from the
grid that repeats it any number of times in both directions. The machine on the repeated grid, its
pointer folded into the single one, is at every step the machine on the single grid. Only a peek
sees how far the grid reaches, because what it sees outside is zero.

Main lemmas:

* `Grid.lookup_tile`      the repeated grid shows the same cells
* `Pointer.fold_jump`     moving and folding the pointer can be done in either order
* `Machine.obey_folds`    an instruction that is no peek has like results on both grids
* `Machine.tile_seamless` all steps of both machines
-/

namespace Fish

/-! ## Repetition -/

section

variable {α : Type} {xs : Array α} {x : α} {k i : Nat}

/-- An array a number of times over. -/
def repeated (xs : Array α) : Nat → Array α
  | 0 => #[]
  | k + 1 => xs ++ repeated xs k

/-- The repeated array is as many times as large. -/
theorem size_repeated : (repeated xs k).size = k * xs.size := by
  induction k with
  | zero => simp [repeated]
  | succ k ih =>
    rw [repeated, Array.size_append, ih, Nat.succ_mul]
    omega

/-- It has no other elements. -/
theorem mem_of_mem_repeated (h : x ∈ repeated xs k) : x ∈ xs := by
  induction k with
  | zero => simp [repeated] at h
  | succ k ih =>
    rw [repeated, Array.mem_append] at h
    exact h.elim id ih

/-- An index into the repeated array counts modulo the size of the single one. -/
theorem getElem?_repeated (h : i < k * xs.size) : (repeated xs k)[i]? = xs[i % xs.size]? := by
  -- By induction on the number of times: an index is in the first one, or counts from the second.
  induction k generalizing i with
  | zero => omega
  | succ k ih =>
    rw [Nat.succ_mul] at h
    rw [repeated, Array.getElem?_append]
    split
    · next hlt => rw [Nat.mod_eq_of_lt hlt]
    · next hge =>
      have hmod : i % xs.size = (i - xs.size) % xs.size := Nat.mod_eq_sub_mod (by omega)
      rw [ih (by omega), hmod]

end

namespace Point

/-- A point that was folded before an addition comes to the same place. -/
theorem wrap_add (p q size : Point) : (p.wrap size + q).wrap size = (p + q).wrap size := by
  ext <;> simp [wrap]

/-- Folding into a rectangle undoes folding into one whose sides are multiples. -/
theorem wrap_wrap_of_dvd (p : Point) {size large : Point} (hx : size.x ∣ large.x)
    (hy : size.y ∣ large.y) : (p.wrap large).wrap size = p.wrap size := by
  ext
  · exact Int.emod_emod_of_dvd p.x hx
  · exact Int.emod_emod_of_dvd p.y hy

end Point

namespace Grid

variable {g : Grid} {across down : Nat}

/-- The grid repeated a number of times across and down. -/
def tile (g : Grid) (across down : Nat) : Grid where
  width := across * g.width
  rows := repeated (g.rows.map fun row => repeated row across) down
  size_of_mem_rows := by
    intro row h
    obtain ⟨r, hr, rfl⟩ := Array.mem_map.1 (mem_of_mem_repeated h)
    rw [size_repeated, g.size_of_mem_rows r hr]

/-- The repeated grid is as many times as wide. -/
@[simp] theorem width_tile : (g.tile across down).width = across * g.width := rfl

/-- It is as many times as high. -/
@[simp] theorem height_tile : (g.tile across down).height = down * g.height := by
  simp only [height, tile, size_repeated, Array.size_map]

/-- It has cells if the single one has. -/
theorem isEmpty_tile (ha : 0 < across) (hd : 0 < down) :
    (g.tile across down).isEmpty = g.isEmpty := by
  have hwidth : across * g.width = 0 ↔ g.width = 0 := by rw [Nat.mul_eq_zero]; omega
  have hheight : down * g.height = 0 ↔ g.height = 0 := by rw [Nat.mul_eq_zero]; omega
  simp only [isEmpty, width_tile, height_tile, hwidth, hheight]

/-- Folding into the single grid undoes folding into the repeated one. -/
theorem wrap_wrap_tile (p : Point) :
    (p.wrap (g.tile across down).bounds).wrap g.bounds = p.wrap g.bounds := by
  apply Point.wrap_wrap_of_dvd
  · simp
  · simp

/-- What the repeated grid has at a place inside is what the single one has at the place that it
    folds to. -/
theorem cell?_tile {p : Point} (h : p.Inside (g.tile across down).bounds) :
    (g.tile across down).cell? p = g.cell? (p.wrap g.bounds) := by
  obtain ⟨⟨hx0, hx⟩, ⟨hy0, hy⟩⟩ := h
  simp only [bounds_x, bounds_y, width_tile, height_tile] at hx hy
  have hrow : (p.y % (g.height : Int)).toNat = p.y.toNat % g.rows.size :=
    Int.toNat_emod hy0 (by omega)
  have hcolumn : (p.x % (g.width : Int)).toNat = p.x.toNat % g.width :=
    Int.toNat_emod hx0 (by omega)
  have hy' : p.y.toNat < down * g.rows.size := by rw [← height]; omega
  have hx' : p.x.toNat < across * g.width := by omega
  simp only [cell?, Point.wrap, bounds_x, bounds_y, hrow, hcolumn]
  -- The row is found modulo the height, and the cell in it modulo the width.
  show ((repeated (g.rows.map fun row => repeated row across) down)[p.y.toNat]?.bind _) = _
  rw [getElem?_repeated (by rwa [Array.size_map]), Array.size_map, Array.getElem?_map]
  cases hr : g.rows[p.y.toNat % g.rows.size]? with
  | none => rfl
  | some row =>
    have hsize := g.size_of_mem_rows row (Array.mem_of_getElem? hr)
    simp only [Option.map_some, Option.bind_eq_bind, Option.bind_some]
    rw [getElem?_repeated (by rwa [hsize]), hsize]

/-- The repeated grid shows the same cells. -/
theorem lookup_tile (ha : 0 < across) (hd : 0 < down) (p : Point) :
    (g.tile across down).lookup p = g.lookup p := by
  have hempty : (g.tile across down).isEmpty = g.isEmpty := isEmpty_tile ha hd
  rw [lookup, lookup, hempty]
  split
  · rfl
  · -- With cells, a place is folded into the repeated grid first and into the single one then.
    next hcells =>
    rw [Bool.not_eq_true] at hcells
    obtain ⟨hx, hy⟩ := bounds_pos (hempty.trans hcells)
    rw [cell?_tile (Point.inside_wrap p hx hy), wrap_wrap_tile]

end Grid

/-! ## Moving on both grids -/

namespace Pointer

variable {g : Grid} {across down : Nat}

/-- The pointer with its position folded into the bounds. -/
def fold (p : Pointer) (bounds : Point) : Pointer := { p with position := p.position.wrap bounds }

/-- On the repeated grid the pointer moves to a place that folds to where it moves on the single
    one, if the targets fold to the same place. -/
theorem fold_jump (ha : 0 < across) (hd : 0 < down) (p : Pointer) {target target' : Point}
    (h : target.wrap g.bounds = target'.wrap g.bounds) :
    (p.jump target (g.tile across down).bounds).fold g.bounds =
      (p.fold g.bounds).jump target' g.bounds := by
  -- The pointer stays on a grid without cells, and the two grids have cells both or neither.
  have hsides : ((g.tile across down).bounds.x = 0 ∨ (g.tile across down).bounds.y = 0) ↔
      (g.bounds.x = 0 ∨ g.bounds.y = 0) := by
    simp only [Grid.bounds_x, Grid.bounds_y, Int.natCast_eq_zero, ← Grid.isEmpty_iff,
      Grid.isEmpty_tile ha hd]
  simp only [jump, hsides]
  split
  · rfl
  · show Pointer.mk ((target.wrap _).wrap _) _ = _
    rw [Grid.wrap_wrap_tile, h]
    rfl

/-- On both grids a pace leads to places that fold to the same. -/
theorem fold_advance (ha : 0 < across) (hd : 0 < down) (p : Pointer) :
    (p.advance (g.tile across down).bounds).fold g.bounds = (p.fold g.bounds).advance g.bounds :=
  fold_jump ha hd p (Point.wrap_add ..).symm

end Pointer

/-- No instruction looks at the grid or at the place of the pointer but a jump and a peek. -/
theorem Instruction.notin_touches {i : Instruction} (hjump : i ≠ .jump) (hpeek : i ≠ .peek) :
    Part.grid ∉ i.touches ∧ Part.position ∉ i.touches := by
  cases i with
  | jump | peek => contradiction
  | mirror mirror => cases mirror <;> simp [touches, writes]
  | stack command => cases command <;> simp [touches, writes]
  | _ => simp [touches, writes]

namespace Machine

variable {g : Grid} {across down : Nat} {t m : Machine} {cell : Cell} {exempt : Fault → Prop}

/-- The machine moved to another grid, with its pointer folded into it. -/
def foldOnto (g : Grid) (t : Machine) : Machine :=
  { t with grid := g, pointer := t.pointer.fold g.bounds }

/-- The first machine runs on the repeated grid, and the second one is the same on the single grid.
    -/
structure Folds (g : Grid) (across down : Nat) (t m : Machine) : Prop where
  grid : t.grid = g.tile across down
  eq : m = t.foldOnto g

/-- Everything but the grid and the place of the pointer is the same in both machines. -/
theorem shares_folds {p : Part} (hp : p ∉ [Part.grid, .position]) :
    Shares (Folds g across down) p where
  same {t m} h := by
    rw [h.eq]
    cases p <;> first | rfl | simp at hp
  put {t m} c h := by
    constructor
    · rw [← h.grid]
      cases p <;> first | rfl | simp at hp
    · rw [h.eq]
      cases p <;> first | rfl | simp at hp

/-! ## Cells and steps on both grids -/

/-- A jump goes to places that fold to the same place. -/
theorem jump_folds (ha : 0 < across) (hd : 0 < down) :
    Action.Respects (Folds g across down) exempt jump := by
  have hvalues : RespectsValues (Folds g across down) exempt :=
    (shares_folds (p := .active) (by decide)).respectsValues
  apply hvalues.popPoint.bind
  intro target
  apply Action.Respects.bind _ fun _ => .pure _
  apply Action.Respects.modify
  intro t m h
  -- The target is the same, and it is folded into one grid or the other.
  have hfold : (t.pointer.jump target t.grid.bounds).fold g.bounds =
      (t.pointer.fold g.bounds).jump target g.bounds := by
    rw [h.grid]
    exact Pointer.fold_jump ha hd t.pointer rfl
  refine ⟨h.grid, ?_⟩
  rw [h.eq]
  exact congrArg (fun pointer => { t.foldOnto g with pointer }) hfold.symm

/-- An instruction that is no peek has like results on both grids. -/
theorem obey_folds (ha : 0 < across) (hd : 0 < down) (hpeek : cell.instruction ≠ .peek) :
    Action.Respects (Folds g across down) exempt (obey cell) := by
  -- A jump is the only other instruction that looks at where the pointer is.
  by_cases hjump : cell.instruction = .jump
  · rw [obey, hjump]
    exact jump_folds ha hd
  · obtain ⟨hgrid, hposition⟩ := Instruction.notin_touches hjump hpeek
    apply obey_respects
    intro p hp
    apply shares_folds
    rw [List.mem_cons, List.mem_singleton, not_or]
    exact ⟨fun h => hgrid (h ▸ hp), fun h => hposition (h ▸ hp)⟩

/-- The two machines travel alike. -/
theorem travels_folds (ha : 0 < across) (hd : 0 < down) : Travels (Folds g across down) where
  cell {t m} h := by
    rw [h.eq, cell?, cell?, h.grid, Grid.lookup_tile ha hd]
    exact (Grid.lookup_wrap g t.pointer.position).symm
  pace {t m} h := by
    have hfold : (t.pointer.advance t.grid.bounds).fold g.bounds =
        (t.pointer.fold g.bounds).advance g.bounds := by
      rw [h.grid]
      exact Pointer.fold_advance ha hd t.pointer
    refine ⟨h.grid, ?_⟩
    rw [h.eq]
    exact congrArg (fun pointer => { t.foldOnto g with pointer }) hfold.symm
  shares p hp := by
    apply shares_folds
    cases p <;> simp at hp ⊢

/-- A step has like results on both grids, if its cell is no peek. -/
theorem step_folds (ha : 0 < across) (hd : 0 < down) (h : Folds g across down t m)
    (hpeek : ∀ row ∈ g.rows, ∀ cell ∈ row, cell.instruction ≠ .peek) :
    t.step.Alike (Folds g across down) exempt m.step := by
  have htravels : Travels (Folds g across down) := travels_folds ha hd
  apply step_alike htravels h
  intro _ cell hc
  -- The cell is one of the single grid, so it is no peek.
  have hcell : g.lookup m.pointer.position = some cell := by
    rw [← hc, htravels.cell h, h.eq]
    rfl
  obtain ⟨row, hrow, hmem⟩ := Grid.mem_of_lookup hcell
  have hcounted := related_counted (htravels.shares .steps (by simp)) h
  apply execute_alike hcounted ((htravels.shares .quoting (by simp)).same hcounted)
  · intro _ _
    exact (shares_folds (p := .active) (by decide)).respectsValues
  · intro _
    exact obey_folds ha hd (hpeek row hrow cell hmem) _ _ hcounted

/-! ## Runs on both grids -/

/-- One program on a grid without a peek, and on this grid repeated any number of times across and
    down. After every number of steps the two machines are the same in everything but the grid and
    the place of the pointer, which is on the single grid the place on the repeated one modulo width
    and height; and the next step has the same answer. -/
theorem tile_seamless (hpeek : ∀ row ∈ g.rows, ∀ cell ∈ row, cell.instruction ≠ .peek)
    (ha : 0 < across) (hd : 0 < down) (values : List Binary64) (seed : UInt64) (input : Input)
    (output : Output) (k : Nat) :
    let m := (start g values seed input output).after k
    let t := (start (g.tile across down) values seed input output).after k
    m = { t with
      grid := g
      pointer :=
        { position := ⟨t.pointer.position.x % g.width, t.pointer.position.y % g.height⟩
          heading := t.pointer.heading } } ∧
    m.step = t.step.mapState (foldOnto g) := by
  intro m t
  -- Both start at the origin, which is inside every grid.
  have hstart : Folds g across down (start (g.tile across down) values seed input output)
      (start g values seed input output) := by
    refine ⟨rfl, ?_⟩
    have hzero : Pointer.start.fold g.bounds = Pointer.start := by
      simp [Pointer.start, Pointer.fold, Point.origin, Point.wrap]
    simp only [start, foldOnto, hzero]
  have hstep {t m : Machine} (h : Folds g across down t m) :
      t.step.Alike (Folds g across down) (fun _ => False) m.step := step_folds ha hd h hpeek
  -- No fault is exempt, so the machines stay related at every step.
  have hk : Folds g across down t m :=
    related_after hstart (fun j _ h => hstep h) fun _ _ _ _ _ => id
  have hresult : t.step.Alike (fun t m => m = t.foldOnto g) (fun _ => False) m.step :=
    (hstep hk).imp Folds.eq
  exact ⟨hk.eq, hresult.eq_mapState fun _ _ _ => id⟩

/-- A jump to a place far to the left of both grids and below both. -/
theorem tile_seamless_at_far_jump :
    let g := Grid.ofRows [['.', '1', '2'].map Cell.ofChar]
    let m := (start g [.infinite true, .ofNat 5] 0 {} {}).after 1
    let t := (start (g.tile 2 3) [.infinite true, .ofNat 5] 0 {} {}).after 1
    t.pointer.position = ⟨4, 2⟩ ∧ m.pointer.position = ⟨1, 0⟩ ∧ m.pointer.heading = .right ∧
      m.tower = t.tower ∧ m.step = t.step.mapState (foldOnto g) := by
  intro g m t
  have hpeek : ∀ row ∈ g.rows, ∀ cell ∈ row, cell.instruction ≠ .peek := by decide +kernel
  obtain ⟨hm, hstep⟩ := tile_seamless hpeek (by decide : 0 < 2) (by decide : 0 < 3)
    [.infinite true, .ofNat 5] 0 {} {} 1
  have ht : t.pointer.position = ⟨4, 2⟩ := by decide +kernel
  have hposition : m.pointer.position = ⟨1, 0⟩ := by decide +kernel
  have htower : m.tower = t.tower := by rw [show m = _ from hm]
  exact ⟨ht, hposition, by decide +kernel, htower, hstep⟩

end Machine

end Fish
