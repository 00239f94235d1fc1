import Fish.Binary64.Basic
import Fish.Point

/-!
# Scratch values

The values that a program has put at points of the plane. They lie over the cells without changing
them, and any point will do, inside the grid or not. A point holds the value that was put there
last.

Main lemmas:

* `find?_insert_self`, `find?_insert_of_ne`   a value is found where it was put, and only there
* `size_insert_le`                            a value adds at most one entry
-/

namespace Fish

/-- Values at points of the plane, each point at most once. -/
structure Scratch where
  entries : List (Point × Binary64) := []
deriving DecidableEq

namespace Scratch

/-- The value at a point. -/
def find? (s : Scratch) (p : Point) : Option Binary64 := s.entries.lookup p

/-- Puts a value at a point, in place of one that is there. -/
def insert (s : Scratch) (p : Point) (value : Binary64) : Scratch :=
  ⟨(p, value) :: s.entries.filter (·.1 ≠ p)⟩

/-- The number of points with a value. -/
def size (s : Scratch) : Nat := s.entries.length

/-- A value is found at the point where it was put. -/
theorem find?_insert_self (s : Scratch) (p : Point) (value : Binary64) :
    (s.insert p value).find? p = some value := by
  simp [find?, insert]

/-- A value that is put at one point leaves what is found at every other. -/
theorem find?_insert_of_ne (s : Scratch) {p q : Point} (value : Binary64) (h : q ≠ p) :
    (s.insert p value).find? q = s.find? q := by
  have hq : (q == p) = false := by simpa using h
  simp only [find?, insert, List.lookup_cons, hq]
  -- Only entries of the point `p` are dropped, and a search for `q` passes over them anyway.
  induction s.entries with
  | nil => rfl
  | cons e es ih =>
    obtain ⟨r, v⟩ := e
    by_cases hr : r = p
    · subst hr
      simpa [List.lookup_cons, hq] using ih
    · cases hqr : q == r with
      | false => simpa [List.lookup_cons, hr, hqr] using ih
      | true => simp [List.lookup_cons, hr, hqr]

/-- A value adds at most one entry, and none if its point has a value. -/
theorem size_insert_le (s : Scratch) (p : Point) (value : Binary64) :
    (s.insert p value).size ≤ s.size + 1 := by
  simpa [size, insert] using List.length_filter_le _ s.entries

end Scratch

end Fish
