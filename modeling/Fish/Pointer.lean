import Fish.Heading

/-!
# The pointer

The pointer is where execution is and which way it travels. Every move folds the position into
the bounds of the grid, so a pointer that has moved stays inside; a grid without cells has no
place to move to, and there every move leaves the pointer alone.
-/

namespace Fish

/-- A position on the plane together with a heading. -/
@[ext] structure Pointer where
  position : Point
  heading : Heading
deriving DecidableEq, Repr

namespace Pointer

/-- Execution begins in the upper left corner and travels right. -/
def start : Pointer := ⟨.origin, .right⟩

/-- Moves straight to a point, folded into the bounds. -/
def jump (p : Pointer) (target bounds : Point) : Pointer :=
  if bounds.x = 0 ∨ bounds.y = 0 then p else { p with position := target.wrap bounds }

/-- Takes one pace along the heading, wrapping around the bounds. -/
def advance (p : Pointer) (bounds : Point) : Pointer :=
  p.jump (p.position + p.heading.vector) bounds

/-- Takes up a new heading. -/
def turn (p : Pointer) (h : Heading) : Pointer := { p with heading := h }

/-- Passes a mirror with a rule of its own. -/
def reflect (p : Pointer) (m : Mirror) : Pointer := p.turn (p.heading.reflect m)

/-- A jump keeps the heading. -/
@[simp] theorem heading_jump (p : Pointer) (target bounds : Point) :
    (p.jump target bounds).heading = p.heading := by
  unfold jump; split <;> rfl

/-- A pace keeps the heading. -/
@[simp] theorem heading_advance (p : Pointer) (bounds : Point) :
    (p.advance bounds).heading = p.heading :=
  heading_jump ..

/-- After a move the position is inside bounds that have an inside. -/
theorem inside_jump (p : Pointer) (target : Point) {bounds : Point}
    (hx : 0 < bounds.x) (hy : 0 < bounds.y) : (p.jump target bounds).position.Inside bounds := by
  rw [jump, if_neg (by omega)]
  exact Point.inside_wrap target hx hy

/-- A pace ends inside bounds that have an inside. -/
theorem inside_advance (p : Pointer) {bounds : Point} (hx : 0 < bounds.x) (hy : 0 < bounds.y) :
    (p.advance bounds).position.Inside bounds :=
  inside_jump p _ hx hy

end Pointer

end Fish
