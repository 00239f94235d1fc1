/-!
# Points of the plane

A place of the program plane is a pair of integers, `x` to the right and `y` downward. The plane
of a program is a torus: `Point.wrap` folds a point into a rectangle by taking each coordinate
modulo the rectangle's side, and `Point.Inside` says that a point needs no folding.

Main lemmas:

* `Point.inside_wrap`         a folded point lies inside
* `Point.wrap_eq_self_iff`    folding leaves exactly the points inside alone
* `Point.wrap_wrap`           folding twice is folding once
-/

namespace Fish

/-- A place of the plane, or the size of a rectangle of it. -/
@[ext] structure Point where
  x : Int
  y : Int
deriving DecidableEq, Repr, Inhabited

namespace Point

/-- The upper left corner. -/
def origin : Point := ⟨0, 0⟩

/-- Points add coordinate by coordinate, without an edge. -/
instance : Add Point := ⟨fun p q => ⟨p.x + q.x, p.y + q.y⟩⟩

@[simp] theorem add_x (p q : Point) : (p + q).x = p.x + q.x := rfl

@[simp] theorem add_y (p q : Point) : (p + q).y = p.y + q.y := rfl

/-- Folds a point into the rectangle of the given size. The remainder is never negative, so a
    point left of or above the rectangle enters it from the far edge. -/
def wrap (p size : Point) : Point := ⟨p.x % size.x, p.y % size.y⟩

/-- The point lies in the rectangle of the given size at the origin. -/
def Inside (p size : Point) : Prop :=
  (0 ≤ p.x ∧ p.x < size.x) ∧ (0 ≤ p.y ∧ p.y < size.y)

instance (p size : Point) : Decidable (p.Inside size) :=
  inferInstanceAs (Decidable (_ ∧ _))

/-- A folded point lies inside every rectangle that has an inside. -/
theorem inside_wrap (p : Point) {size : Point} (hx : 0 < size.x) (hy : 0 < size.y) :
    (p.wrap size).Inside size :=
  ⟨⟨Int.emod_nonneg _ (by omega), Int.emod_lt_of_pos _ hx⟩,
    ⟨Int.emod_nonneg _ (by omega), Int.emod_lt_of_pos _ hy⟩⟩

/-- Folding does nothing to a point that is inside. -/
theorem Inside.wrap_eq {p size : Point} (h : p.Inside size) : p.wrap size = p := by
  obtain ⟨⟨hx0, hx⟩, ⟨hy0, hy⟩⟩ := h
  ext
  · exact Int.emod_eq_of_lt hx0 hx
  · exact Int.emod_eq_of_lt hy0 hy

/-- In a rectangle that has an inside, folding leaves alone exactly the points inside. -/
theorem wrap_eq_self_iff (p : Point) {size : Point} (hx : 0 < size.x) (hy : 0 < size.y) :
    p.wrap size = p ↔ p.Inside size :=
  ⟨fun h => h ▸ inside_wrap p hx hy, Inside.wrap_eq⟩

/-- Folding twice is folding once. -/
@[simp] theorem wrap_wrap (p size : Point) : (p.wrap size).wrap size = p.wrap size := by
  ext <;> simp [wrap]

end Point

end Fish
