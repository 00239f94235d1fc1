import Fish.Proofs.CheckedMoves
import Fish.Proofs.Travel
import Mathlib.Logic.Function.Iterate

/-!
# Straight travel

A pointer that nothing turns advances pace after pace around its line. Where it is after a number of
paces can be said at once, `Pointer.paced`: so many times its vector away, folded into the bounds.
So it is back after every multiple of the length of the line and never between, and if it turns back
and takes as many paces again then it is where it began.

Main lemmas:

* `Pointer.advances_eq_paced`      advancing pace by pace, at once
* `Pointer.checkedAdvances_eq`     no pace on the way overflows
* `Pointer.position_paced_iff`     when the pointer is back
* `Pointer.turnBack_paced_paced`   paces forth and as many paces back
* `Pointer.straight_travel`        all of it about one pointer
-/

namespace Fish

/-- The vector of the heading the other way. -/
theorem Heading.vector_opposite (h : Heading) :
    h.opposite.vector = ⟨-h.vector.x, -h.vector.y⟩ := by
  cases h <;> rfl

/-- The side of a rectangle that a heading travels along. -/
def Point.extent (size : Point) : Heading → Int
  | .left => size.x
  | .right => size.x
  | .up => size.y
  | .down => size.y

/-- On a circle a number of steps leads back if and only if they go around it a number of times,
    whichever way round. -/
theorem add_mul_emod_eq_self_iff {a side s : Int} (h0 : 0 ≤ a) (h : a < side) (hs : s * s = 1)
    (k : Int) : (a + k * s) % side = a ↔ side ∣ k := by
  have hself : a % side = a := Int.emod_eq_of_lt h0 h
  have hcancel : a + k * s - a = k * s := by omega
  -- A step is its own inverse, so a multiple of the side stays one when it is counted in steps.
  have hback : k * s * s = k := by rw [Int.mul_assoc, hs, Int.mul_one]
  calc (a + k * s) % side = a
      ↔ (a + k * s) % side = a % side := by rw [hself]
    _ ↔ side ∣ k * s := by
        rw [Int.emod_eq_emod_iff_emod_sub_eq_zero, hcancel, Int.dvd_iff_emod_eq_zero]
    _ ↔ side ∣ k := ⟨fun hdvd => hback ▸ Int.dvd_mul_of_dvd_left hdvd, Int.dvd_mul_of_dvd_left⟩

namespace Pointer

variable {p : Pointer} {bounds : Point}

/-! ## Pace by pace -/

/-- The pointer after a number of advances, one after the other. -/
def advances (p : Pointer) (bounds : Point) (k : Nat) : Pointer :=
  (fun q => q.advance bounds)^[k] p

/-- One advance more comes last. -/
theorem advances_succ (p : Pointer) (bounds : Point) (k : Nat) :
    p.advances bounds (k + 1) = (p.advances bounds k).advance bounds :=
  Function.iterate_succ_apply' ..

/-- The pointer is where the whole way leads, although it is folded into the bounds at every
    pace. -/
theorem advances_eq_paced (h : p.position.Inside bounds) (k : Nat) :
    p.advances bounds k = p.paced bounds k := by
  obtain ⟨⟨hx0, hx⟩, ⟨hy0, hy⟩⟩ := id h
  induction k with
  | zero => exact (paced_zero h).symm
  | succ k ih => rw [advances_succ, ih, advance_paced p (by omega) (by omega)]

/-- No pace leads out of the bounds. -/
theorem inside_paced (h : p.position.Inside bounds) (k : Nat) :
    (p.paced bounds k).position.Inside bounds := by
  obtain ⟨⟨hx0, hx⟩, ⟨hy0, hy⟩⟩ := h
  exact Point.inside_wrap _ (by omega) (by omega)

/-- A number of advances with checked arithmetic. -/
def checkedAdvances (p : Pointer) (bounds : Point) : Nat → Option Pointer
  | 0 => some p
  | k + 1 => (p.checkedAdvances bounds k).bind (·.checkedAdvance bounds)

/-- From inside the bounds no pace overflows, if the sides of the bounds are words. -/
theorem checkedAdvances_eq (h : p.position.Inside bounds) (hword : bounds.IsWord) (k : Nat) :
    p.checkedAdvances bounds k = some (p.advances bounds k) := by
  induction k with
  | zero => rfl
  | succ k ih =>
    have hinside : (p.advances bounds k).position.Inside bounds :=
      advances_eq_paced h k ▸ inside_paced h k
    rw [checkedAdvances, ih, Option.bind_some, checkedAdvance_eq hinside hword, advances_succ]

/-! ## The way around and the way back -/

/-- The pointer is back after the multiples of the length of its line, and only then. -/
theorem position_paced_iff (h : p.position.Inside bounds) (k : Nat) :
    (p.paced bounds k).position = p.position ↔ bounds.extent p.heading ∣ k := by
  obtain ⟨⟨hx0, hx⟩, ⟨hy0, hy⟩⟩ := h
  -- The coordinate across the line never changes, so the one along it decides.
  have hrow : p.position.y % bounds.y = p.position.y := Int.emod_eq_of_lt hy0 hy
  have hcolumn : p.position.x % bounds.x = p.position.x := Int.emod_eq_of_lt hx0 hx
  simp only [Point.ext_iff, paced, reach, Point.wrap]
  cases p.heading with
  | left | right =>
    rw [add_mul_emod_eq_self_iff hx0 hx rfl]
    simp [Heading.vector, Point.extent, hrow]
  | up | down =>
    rw [add_mul_emod_eq_self_iff hy0 hy rfl]
    simp [Heading.vector, Point.extent, hcolumn]

/-- The pointer turned back. -/
def turnBack (p : Pointer) : Pointer := p.turn p.heading.opposite

@[simp] theorem position_turnBack (p : Pointer) : p.turnBack.position = p.position := rfl

@[simp] theorem heading_turnBack (p : Pointer) : p.turnBack.heading = p.heading.opposite := rfl

/-- Turning back twice does nothing. -/
@[simp] theorem turnBack_turnBack (p : Pointer) : p.turnBack.turnBack = p := by
  ext <;> simp

/-- The mirror that reflects everything turns the pointer back, and draws nothing. -/
theorem passMirror_reverse (p : Pointer) (g : Generator) :
    p.passMirror .reverse g = (p.turnBack, g) := by
  have hreverse : p.heading.reflect .reverse = p.heading.opposite := by
    cases p.heading <;> rfl
  rw [passMirror, reflect, hreverse, turnBack]
  nofun

/-- After some paces and as many paces back the pointer is where it began. -/
theorem turnBack_paced_paced (h : p.position.Inside bounds) (k : Nat) :
    ((p.paced bounds k).turnBack.paced bounds k) = p.turnBack := by
  -- One coordinate: what was added is taken away again, and folding in between does not matter.
  have hback (a v side : Int) : ((a + k * v) % side + k * -v) % side = a % side := by
    rw [Int.emod_add_emod, Int.mul_neg, Int.add_neg_cancel_right]
  have hplace : ((p.paced bounds k).turnBack.reach k).wrap bounds = p.position := by
    rw [← h.wrap_eq]
    simp only [Point.wrap, reach, paced, position_turnBack, heading_turnBack,
      Heading.vector_opposite, hback]
  exact Pointer.ext hplace rfl

/-- A pointer inside bounds that advances a number of times keeps its heading, and its position is
    so many times its vector away, each coordinate modulo the side of the bounds. If the sides are
    words then no advance overflows. The position is the one that it began at after the multiples of
    the width if it heads sideways, or of the height if it heads up or down, and after no other
    number of advances. If it then passes the mirror that reflects everything, advances as often
    again, and passes such a mirror once more, it is as it was. -/
theorem straight_travel (h : p.position.Inside bounds) (k : Nat) (g : Generator) :
    let back (p : Pointer) := (p.passMirror .reverse g).1
    (p.advances bounds k).heading = p.heading ∧
      (p.advances bounds k).position =
        ⟨(p.position.x + k * p.heading.vector.x) % bounds.x,
          (p.position.y + k * p.heading.vector.y) % bounds.y⟩ ∧
      (p.advances bounds k).position.Inside bounds ∧
      (bounds.IsWord → p.checkedAdvances bounds k = some (p.advances bounds k)) ∧
      ((p.advances bounds k).position = p.position ↔ bounds.extent p.heading ∣ k) ∧
      back ((back (p.advances bounds k)).advances bounds k) = p := by
  intro back
  have hpaced := advances_eq_paced h k
  have hinside := inside_paced h k
  have hreturn : (p.paced bounds k).turnBack.advances bounds k = p.turnBack := by
    rw [advances_eq_paced (p := (p.paced bounds k).turnBack) hinside, turnBack_paced_paced h]
  refine ⟨by rw [hpaced]; rfl, by rw [hpaced]; rfl, hpaced ▸ hinside,
    fun hword => checkedAdvances_eq h hword k, ?_, ?_⟩
  · rw [hpaced]
    exact position_paced_iff h k
  · simp only [back, passMirror_reverse, hpaced, hreturn, turnBack_turnBack]

/-- Down a single column that is as high as a word can be, over its lower edge. -/
theorem straight_travel_over_last_row :
    let p : Pointer := ⟨⟨0, 0x7ffffffffffffffe⟩, .down⟩
    let bounds : Point := ⟨1, 0x7fffffffffffffff⟩
    p.position.Inside bounds ∧ bounds.IsWord ∧
      p.checkedAdvances bounds 2 = some (p.advances bounds 2) ∧
      (p.advances bounds 2).position = ⟨0, 1⟩ := by
  intro p bounds
  have h : p.position.Inside bounds := by decide
  have hword : bounds.IsWord := by decide
  obtain ⟨-, hposition, -, hchecked, -⟩ := straight_travel h 2 (.ofSeed 0)
  exact ⟨h, hword, hchecked hword, hposition.trans (by decide)⟩

end Pointer

end Fish
