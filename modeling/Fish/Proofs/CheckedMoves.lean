import Fish.Machine.Run

/-!
# Moves with checked arithmetic

A coordinate is a signed word of 64 bits for a processor. The operations here are the moves of the
pointer as such a processor would carry them out: a sum that does not fit a word has no value, and
neither has a remainder by zero. From a position inside the bounds, if the bounds are words
themselves, every move has a value, and it is the one of the unchecked move.

Main lemmas:

* `Grid.checkedLookup_eq`         a lookup never takes a remainder by zero
* `Pointer.checkedJump_eq`        neither does a jump, wherever it is aimed
* `Pointer.checkedAdvance_eq`     a pace from inside the bounds does not overflow
* `Machine.checkedMove_eq`        nor do the paces of a move
-/

namespace Fish

namespace Point

/-- Both coordinates are signed words of 64 bits. -/
def IsWord (p : Point) : Prop :=
  (-0x8000000000000000 ≤ p.x ∧ p.x ≤ 0x7fffffffffffffff) ∧
    (-0x8000000000000000 ≤ p.y ∧ p.y ≤ 0x7fffffffffffffff)

instance (p : Point) : Decidable p.IsWord := inferInstanceAs (Decidable (_ ∧ _))

/-- The sum of two points; `none` on overflow. -/
def checkedAdd (p q : Point) : Option Point := if (p + q).IsWord then some (p + q) else none

/-- Folds a point into a rectangle; `none` if that takes a remainder by zero. -/
def checkedWrap (p size : Point) : Option Point :=
  if size.x = 0 ∨ size.y = 0 then none else some (p.wrap size)

/-- Folding into a rectangle that has an inside is not refused. -/
theorem checkedWrap_eq {p size : Point} (h : ¬(size.x = 0 ∨ size.y = 0)) :
    p.checkedWrap size = some (p.wrap size) :=
  if_neg h

/-- A pace from inside a rectangle leads at most one place out of it. -/
theorem Inside.add_vector {p size : Point} (h : p.Inside size) (heading : Heading) :
    (-1 ≤ (p + heading.vector).x ∧ (p + heading.vector).x ≤ size.x) ∧
      (-1 ≤ (p + heading.vector).y ∧ (p + heading.vector).y ≤ size.y) := by
  obtain ⟨⟨hx0, hx⟩, ⟨hy0, hy⟩⟩ := h
  cases heading <;> simp only [add_x, add_y, Heading.vector] <;> omega

/-- A pace from inside a rectangle does not overflow if the sides of the rectangle are words. -/
theorem Inside.checkedAdd_vector {p size : Point} (h : p.Inside size) (hword : size.IsWord)
    (heading : Heading) : p.checkedAdd heading.vector = some (p + heading.vector) := by
  obtain ⟨⟨hx0, hx⟩, ⟨hy0, hy⟩⟩ := h.add_vector heading
  obtain ⟨⟨-, hwidth⟩, ⟨-, hheight⟩⟩ := hword
  -- One place out of a rectangle whose sides are words is still a word.
  refine if_pos ⟨⟨?_, ?_⟩, ⟨?_, ?_⟩⟩ <;> omega

end Point

/-- The cell that a point of the torus shows, with a checked remainder. -/
def Grid.checkedLookup (g : Grid) (p : Point) : Option (Option Cell) :=
  if g.isEmpty then some none else (p.checkedWrap g.bounds).map g.cell?

/-- A lookup takes no remainder by zero: on an empty grid it takes none at all. -/
theorem Grid.checkedLookup_eq (g : Grid) (p : Point) : g.checkedLookup p = some (g.lookup p) := by
  rw [checkedLookup, lookup]
  cases h : g.isEmpty with
  | true => rfl
  | false =>
    obtain ⟨hx, hy⟩ := bounds_pos h
    have hsides : ¬(g.bounds.x = 0 ∨ g.bounds.y = 0) := by omega
    simp only [Point.checkedWrap_eq hsides, Option.map_some]
    rfl

namespace Pointer

/-- Moves straight to a point, with a checked remainder. -/
def checkedJump (p : Pointer) (target bounds : Point) : Option Pointer :=
  if bounds.x = 0 ∨ bounds.y = 0 then some p
  else (target.checkedWrap bounds).map fun position => { p with position }

/-- Takes one pace along the heading, with a checked sum and remainder. -/
def checkedAdvance (p : Pointer) (bounds : Point) : Option Pointer :=
  if bounds.x = 0 ∨ bounds.y = 0 then some p
  else do
    let target ← p.position.checkedAdd p.heading.vector
    p.checkedJump target bounds

/-- A jump takes no remainder by zero: in bounds without an inside it takes none at all. -/
theorem checkedJump_eq (p : Pointer) (target bounds : Point) :
    p.checkedJump target bounds = some (p.jump target bounds) := by
  rw [checkedJump, jump]
  split
  · rfl
  · rename_i hsides
    rw [Point.checkedWrap_eq hsides]
    rfl

/-- A pace from inside the bounds neither overflows nor takes a remainder by zero. -/
theorem checkedAdvance_eq {p : Pointer} {bounds : Point} (h : p.position.Inside bounds)
    (hword : bounds.IsWord) : p.checkedAdvance bounds = some (p.advance bounds) := by
  rw [checkedAdvance, advance]
  split
  · rename_i hsides
    rw [jump, if_pos hsides]
  · rw [h.checkedAdd_vector hword]
    exact checkedJump_eq ..

end Pointer

namespace Machine

variable {m : Machine}

/-- Moves the pointer on as `move` does, with checked arithmetic in every pace. -/
def checkedMove (m : Machine) : Motion → Option Machine
  | .advance => do
    let pointer ← m.pointer.checkedAdvance m.grid.bounds
    if m.leaping then
      let pointer ← pointer.checkedAdvance m.grid.bounds
      return { m with pointer, leaping := false }
    else return { m with pointer }
  | .stay => some m

/-- The paces of a move that begins inside the bounds neither overflow nor take a remainder by
    zero. -/
theorem checkedMove_eq (h : m.pointer.position.Inside m.grid.bounds)
    (hword : m.grid.bounds.IsWord) (motion : Motion) :
    m.checkedMove motion = some (m.move motion) := by
  cases motion with
  | stay => rfl
  | advance =>
    obtain ⟨⟨hx0, hx⟩, ⟨hy0, hy⟩⟩ := id h
    have hx : 0 < m.grid.bounds.x := by omega
    have hy : 0 < m.grid.bounds.y := by omega
    -- The first pace ends inside the bounds, so the second one may begin there.
    have hfirst := Pointer.checkedAdvance_eq h hword
    have hsecond := Pointer.checkedAdvance_eq (Pointer.inside_advance m.pointer hx hy) hword
    rw [checkedMove, move, hfirst]
    cases hleap : m.leaping with
    | false => simp [hleap, pace]
    | true => simp [hleap, hsecond, pace]

end Machine

end Fish
