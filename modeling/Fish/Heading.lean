import Fish.Point

/-!
# Headings and mirrors

A heading is one of the four ways in which the pointer can travel. A mirror turns it: the two
slanted ones exchange the axes, the straight ones turn back what crosses them, and `reverse`
turns back everything. The mirror `random` needs a draw (see `Fish.Generator`) and has no
reflection of its own, so `Heading.reflect` lets a heading through it unchanged.
-/

namespace Fish

/-- A way to travel over the plane. -/
inductive Heading
  | up
  | right
  | down
  | left
deriving DecidableEq, Repr, Inhabited

/-- What a mirror cell does to the heading of the pointer. -/
inductive Mirror
  /-- The slash: up and right are exchanged, and so are down and left. -/
  | forward
  /-- The backslash: up and left are exchanged, and so are down and right. -/
  | backward
  /-- The bar: sideways travel turns back. -/
  | vertical
  /-- The underscore: up and down turn back. -/
  | horizontal
  /-- Every heading turns back. -/
  | reverse
  /-- The new heading is drawn at random. -/
  | random
deriving DecidableEq, Repr

namespace Heading

/-- The unit vector of a heading; `y` grows downward. -/
def vector : Heading → Point
  | up => ⟨0, -1⟩
  | right => ⟨1, 0⟩
  | down => ⟨0, 1⟩
  | left => ⟨-1, 0⟩

/-- The heading the other way. -/
def opposite : Heading → Heading
  | up => down
  | right => left
  | down => up
  | left => right

/-- The heading after a mirror. The random mirror has no rule of reflection and changes nothing
    here. -/
def reflect : Heading → Mirror → Heading
  | up, .forward => right
  | right, .forward => up
  | down, .forward => left
  | left, .forward => down
  | up, .backward => left
  | left, .backward => up
  | down, .backward => right
  | right, .backward => down
  | right, .vertical => left
  | left, .vertical => right
  | up, .horizontal => down
  | down, .horizontal => up
  | h, .reverse => h.opposite
  | h, _ => h

/-- The opposite of the opposite is the heading itself. -/
@[simp] theorem opposite_opposite (h : Heading) : h.opposite.opposite = h := by
  cases h <;> rfl

/-- Light can travel back the way it came: a mirror takes the reversed outgoing heading to the
    reversed incoming one. -/
theorem reflect_opposite_reflect (h : Heading) (m : Mirror) :
    (h.reflect m).opposite.reflect m = h.opposite := by
  cases h <;> cases m <;> rfl

/-- A heading is one of the four unit vectors. -/
theorem vector_mem (h : Heading) :
    h.vector ∈ ([⟨0, -1⟩, ⟨1, 0⟩, ⟨0, 1⟩, ⟨-1, 0⟩] : List Point) := by
  cases h <;> simp [vector]

/-- On vectors, the slanted mirrors exchange the coordinates, and the others change signs. -/
theorem vector_reflect (h : Heading) (m : Mirror) :
    (h.reflect m).vector =
      match m with
      | .forward => ⟨-h.vector.y, -h.vector.x⟩
      | .backward => ⟨h.vector.y, h.vector.x⟩
      | .vertical => ⟨-h.vector.x, h.vector.y⟩
      | .horizontal => ⟨h.vector.x, -h.vector.y⟩
      | .reverse => ⟨-h.vector.x, -h.vector.y⟩
      | .random => h.vector := by
  cases h <;> cases m <;> rfl

end Heading

end Fish
