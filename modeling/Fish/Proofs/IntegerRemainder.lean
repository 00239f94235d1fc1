import Fish.Proofs.Remainder
import Mathlib.Data.Rat.Floor
import Mathlib.Tactic.FieldSimp

/-!
# Remainders of integers

Integers whose magnitudes together have at most 53 bits have the remainder of integer arithmetic,
although the quotient is rounded: they are whole on the grid of the ones, and the multiple that is
taken away is at most their magnitudes together.

Main lemmas:

* `Binary64.mod_of_equals`                the remainder of values that equal integers
* `Machine.step_remainder_of_integers`    what a step over the remainder pushes for them
-/

namespace Fish

namespace Binary64

/-! ## Integers among the values -/

/-- The value nearest to an integer; zero has no sign. -/
def ofInt (n : Int) : Binary64 := ofRatio (n < 0) (n.natAbs * unitsPerOne) 1

/-- An integer of at most 53 bits is not rounded. -/
theorem ofInt_of_le {n : Int} (h : n.natAbs ≤ Nat.pow 2 53) :
    ofInt n = finite (n < 0) (n.natAbs * unitsPerOne) (representable_whole h) :=
  ofRatio_units _ _

/-- An integer is its magnitude with its sign. -/
theorem signed_natAbs (n : Int) : signed (n < 0) n.natAbs = n := by
  by_cases h : n < 0
  · rw [signed, decide_eq_true h, if_pos rfl]
    omega
  · rw [signed, decide_eq_false h, if_neg Bool.false_ne_true]
    omega

/-- The sign does not change the magnitude. -/
theorem natAbs_signed (a : Bool) (n : Nat) : (signed a n).natAbs = n := by
  cases a <;> simp [signed]

/-- What equals an integer is its value, or the other zero. -/
theorem eq_finite_of_equals {v : Binary64} {n : Int} (hn : n.natAbs ≤ Nat.pow 2 53)
    (h : v.equals (ofInt n) = true) :
    ∃ a, signed a n.natAbs = n ∧
      v = finite a (n.natAbs * unitsPerOne) (representable_whole hn) := by
  rw [ofInt_of_le hn] at h
  cases v with
  | nan => cases h
  | infinite negative => cases h
  | finite a u hu =>
    -- Both are numbers of units, and the same one.
    have hunits : signed a u = n * unitsPerOne := by
      rw [equals, decide_eq_true_iff, signed_mul, signed_natAbs] at h
      exact h
    have habs : u = n.natAbs * unitsPerOne := by
      rw [← natAbs_signed a u, hunits, Int.natAbs_mul, Int.natAbs_natCast]
    have hpos : (unitsPerOne : Int) ≠ 0 := Int.natCast_ne_zero.2 (Nat.ne_of_gt unitsPerOne_pos)
    rw [habs, signed_mul] at hunits
    refine ⟨a, Int.eq_of_mul_eq_mul_right hpos hunits, ?_⟩
    rw [finite.injEq]
    exact ⟨rfl, habs⟩

/-! ## The remainder -/

/-- The floor of a quotient from a remainder that is on the right side. -/
theorem floor_div_eq {y x q r : Int} (hx : x ≠ 0) (hsplit : y = x * q + r)
    (hpos : 0 < x → 0 ≤ r ∧ r < x) (hneg : x < 0 → x < r ∧ r ≤ 0) : ⌊(y : ℚ) / x⌋ = q := by
  have hx' : (x : ℚ) ≠ 0 := Int.cast_ne_zero.2 hx
  have hquotient : (y : ℚ) / x = q + r / x := by
    rw [hsplit]
    push_cast
    field_simp
  rw [Int.floor_eq_iff, hquotient]
  -- What is left of the quotient beside `q` is not negative and below one, with either sign of the
  -- divisor.
  rcases Int.lt_or_gt_of_ne hx with hlt | hgt
  · obtain ⟨hr, hr0⟩ := hneg hlt
    have hx0 : (x : ℚ) < 0 := Int.cast_lt_zero.2 hlt
    have hless : (r : ℚ) / x < 1 := (div_lt_one_of_neg hx0).2 (Int.cast_lt.2 hr)
    have hge : 0 ≤ (r : ℚ) / x := div_nonneg_of_nonpos (Int.cast_nonpos.2 hr0) hx0.le
    exact ⟨le_add_of_nonneg_right hge, add_lt_add_right hless _⟩
  · obtain ⟨hr0, hr⟩ := hpos hgt
    have hx0 : 0 < (x : ℚ) := Int.cast_pos.2 hgt
    have hless : (r : ℚ) / x < 1 := (div_lt_one hx0).2 (Int.cast_lt.2 hr)
    have hge : 0 ≤ (r : ℚ) / x := div_nonneg (Int.cast_nonneg hr0) hx0.le
    exact ⟨le_add_of_nonneg_right hge, add_lt_add_right hless _⟩

/-- A remainder that has the divisor's sign and is less in magnitude, as an integer. -/
theorem signed_range {t : Bool} {n j : Nat} {x : Int} (hx : signed t j = x) (hless : n < j) :
    (0 < x → 0 ≤ signed t n ∧ signed t n < x) ∧ (x < 0 → x < signed t n ∧ signed t n ≤ 0) := by
  cases t with
  | false =>
    simp only [signed, Bool.false_eq_true, if_false] at hx ⊢
    omega
  | true =>
    simp only [signed, if_true] at hx ⊢
    omega

/-- A whole number with a sign, zero without one, is the value of an integer. -/
theorem finite_eq_ofInt {t : Bool} {n : Nat} (hn : n ≤ Nat.pow 2 53)
    (h : Representable (n * unitsPerOne)) :
    finite (t && n * unitsPerOne ≠ 0) (n * unitsPerOne) h = ofInt (signed t n) := by
  have habs : (signed t n).natAbs ≤ Nat.pow 2 53 := (natAbs_signed t n).symm ▸ hn
  have hpos := unitsPerOne_pos
  rw [ofInt_of_le habs, finite.injEq, natAbs_signed]
  refine ⟨?_, rfl⟩
  rw [Bool.eq_iff_iff]
  cases t <;> simp [signed]
  omega

/-- The remainder of integers whose magnitudes together have at most 53 bits is that of integer
    arithmetic. -/
theorem mod_of_equals {a b : Binary64} {y x : Int} (ha : a.equals (ofInt y) = true)
    (hb : b.equals (ofInt x) = true) (hx : x ≠ 0) (hsum : y.natAbs + x.natAbs ≤ Nat.pow 2 53) :
    ∃ r : Int, a.mod b = ofInt r ∧ r = y - x * ⌊(y : ℚ) / x⌋ ∧ (0 < x → 0 ≤ r ∧ r < x) ∧
      (x < 0 → x < r ∧ r ≤ 0) := by
  obtain ⟨s, hs, rfl⟩ := eq_finite_of_equals (by omega) ha
  obtain ⟨t, ht, rfl⟩ := eq_finite_of_equals (by omega) hb
  have hpos : 0 < x.natAbs := Int.natAbs_pos.2 hx
  have hless := flooredRemainder_lt (s ^^ t) y.natAbs hpos
  -- The multiple is at most the two magnitudes together, so it is a whole number of 53 bits.
  have hmultiple := Nat.le_trans (mul_flooredQuotient_le (s ^^ t) y.natAbs hpos) hsum
  have hp : Representable
      (x.natAbs * unitsPerOne * flooredQuotient (s ^^ t) y.natAbs x.natAbs) := by
    rw [Nat.mul_right_comm]
    exact representable_whole hmultiple
  have hy53 : y.natAbs ≤ Nat.pow 2 53 := by omega
  have hx53 : x.natAbs ≤ Nat.pow 2 53 := by omega
  -- Whole numbers are on a common grid, so the remainder is exact.
  obtain ⟨hr, hmod⟩ := mod_finite (a := s) (b := t) (representable_whole hy53)
    (representable_whole hx53) ones_eq_pow (by omega) hpos hx53 hp
  have hrange := signed_range ht hless
  have hsplit := signed_eq_mul_add s t y.natAbs hpos
  rw [hs, ht] at hsplit
  refine ⟨signed t (flooredRemainder (s ^^ t) y.natAbs x.natAbs), ?_, ?_, hrange⟩
  · rw [hmod]
    exact finite_eq_ofInt (by omega) hr
  · -- By its range it is the one that goes with the floor of the quotient.
    rw [floor_div_eq hx hsplit hrange.1 hrange.2]
    omega

end Binary64

namespace Machine

open Binary64

variable {m : Machine} {cell : Cell} {rest : List Binary64}

/-- A step over the remainder of values that equal integers, the divisor not zero and the magnitudes
    together at most `2 ^ 53`, pushes exactly the floored remainder of integer arithmetic. -/
theorem step_remainder_of_integers {a b : Binary64} {y x : Int} (hrun : m.status = .running)
    (hc : m.cell? = some cell) (hquote : m.quoting = false)
    (hi : cell.instruction = .operator .mod) (hvalues : m.stack.values = b :: a :: rest)
    (ha : a.equals (.ofInt y) = true) (hb : b.equals (.ofInt x) = true) (hx : x ≠ 0)
    (hsum : y.natAbs + x.natAbs ≤ Nat.pow 2 53) :
    ∃ r : Int, r = y - x * ⌊(y : ℚ) / x⌋ ∧ (0 < x → 0 ≤ r ∧ r < x) ∧ (x < 0 → x < r ∧ r ≤ 0) ∧
      m.step = .ok .running ((m.counted.withValues (.ofInt r :: rest)).move .advance) := by
  obtain ⟨r, hmod, hr, hpositive, hnegative⟩ := mod_of_equals ha hb hx hsum
  -- A divisor that equals an integer other than zero is no zero.
  have hnonzero : b.isZero = false := by
    obtain ⟨s, -, rfl⟩ := eq_finite_of_equals (by omega) hb
    have hunits : 0 < x.natAbs * unitsPerOne :=
      Nat.mul_pos (Int.natAbs_pos.2 hx) unitsPerOne_pos
    rw [isZero, decide_eq_false_iff_not]
    exact Nat.ne_of_gt hunits
  have happly := Operator.apply_mod a hnonzero
  rw [hmod] at happly
  exact ⟨r, hr, hpositive, hnegative, step_of_operator hrun hc hquote hi hvalues happly⟩

/-- The greatest admitted negative dividend for a divisor of three leaves one. -/
theorem step_remainder_by_three :
    let a := Binary64.ofInt (-9007199254740989)
    let b := Binary64.ofInt 3
    let m := start (.ofRows [[.ofChar '%']]) [a, b] 0 {} {}
    m.status = .running ∧ m.cell? = some (.ofChar '%') ∧ m.quoting = false ∧
      m.stack.values = [b, a] ∧ a.equals (.ofInt (-9007199254740989)) = true ∧
      b.equals (.ofInt 3) = true ∧
      (-9007199254740989 : Int).natAbs + (3 : Int).natAbs ≤ Nat.pow 2 53 ∧
      m.step = .ok .running ((m.counted.withValues [.ofInt 1]).move .advance) := by
  intro a b m
  have hcell : m.cell? = some (.ofChar '%') := rfl
  have ha : a.equals (.ofInt (-9007199254740989)) = true := by decide +kernel
  have hb : b.equals (.ofInt 3) = true := by decide +kernel
  have hsum : (-9007199254740989 : Int).natAbs + (3 : Int).natAbs ≤ Nat.pow 2 53 := by decide
  obtain ⟨r, hr, hrange, -, hstep⟩ :=
    step_remainder_of_integers (m := m) rfl hcell rfl rfl rfl ha hb (by decide) hsum
  -- The only remainder in the range that differs from the dividend by a multiple of three.
  have hone : r = 1 := by
    have hlaw := hrange (by decide)
    omega
  rw [hone] at hstep
  exact ⟨rfl, hcell, rfl, rfl, ha, hb, hsum, hstep⟩

end Machine

end Fish
