/-!
# Binary floating point with 64 bits

The values of the IEEE 754 format binary64. A finite magnitude is a whole number of units of
`2 ^ -1074`, the least positive value of the format, so all arithmetic on magnitudes is arithmetic
on natural numbers. Which numbers of units exist in the format is `Representable`: at most 53
significant bits, and less than `2 ^ 1024`.

Every operation computes its exact result as a fraction of natural numbers and rounds once, by
`roundUnits`, to the nearest representable number of units, a tie going to the even significand.
Powers are written with `Nat.pow`, so that they are the same terms whichever instances of the
notation for powers are in scope.

Main lemmas:

* `Binary64.grain_dvd_roundUnits` a rounded number of units has at most 53 significant bits
* `Binary64.roundUnits_eq_self`   a number that fits the format is rounded to itself
* `Binary64.ofRatio_units`        a value is recovered from its own number of units
* `Binary64.ofNat_of_le`          whole numbers are exact up to 53 bits
-/

namespace Fish

namespace Binary64

/-- The number of units in one. -/
def unitsPerOne : Nat := Nat.pow 2 1074

/-- The number of units in `2 ^ 1024`, the least power of two beyond the format. -/
def unitsLimit : Nat := Nat.pow 2 2098

/-- The weight of the last one of the 53 leading bits of a magnitude. Magnitudes with fewer bits
    have the unit as their last bit. -/
def grain (units : Nat) : Nat := Nat.pow 2 (units.log2 - 52)

/-- A number of units that the format has: its bits below the 53 leading ones are zero, and it is
    below the limit. -/
def Representable (units : Nat) : Prop := units < unitsLimit ∧ grain units ∣ units

instance (units : Nat) : Decidable (Representable units) :=
  inferInstanceAs (Decidable (_ ∧ _))

/-- The whole number nearest to a fraction; a tie goes to the even one. -/
def roundHalfEven (num den : Nat) : Nat :=
  if 2 * (num % den) < den then num / den
  else if den < 2 * (num % den) then num / den + 1
  else num / den + num / den % 2

/-- The number of units nearest to a fraction among those with at most 53 significant bits; a tie
    goes to the even significand. The limit is not applied here. -/
def roundUnits (num den : Nat) : Nat :=
  roundHalfEven num (den * grain (num / den)) * grain (num / den)

/-- One is some units. -/
theorem unitsPerOne_pos : 0 < unitsPerOne := by decide +kernel

/-- The weight of the last bit is not zero. -/
theorem grain_pos (units : Nat) : 0 < grain units := Nat.two_pow_pos _

/-- Rounding adds at most one to the whole part of the quotient. -/
theorem roundHalfEven_le (num den : Nat) : roundHalfEven num den ≤ num / den + 1 := by
  unfold roundHalfEven
  split
  · omega
  · split <;> omega

/-- A quotient that is whole is not rounded. -/
theorem roundHalfEven_mul_right (q : Nat) {den : Nat} (h : 0 < den) :
    roundHalfEven (q * den) den = q := by
  simp [roundHalfEven, h]

/-- A number of grains that needs at most 53 bits, or one bit more but none at the end, is a number
    with at most 53 significant bits. -/
theorem grain_dvd_mul {r s : Nat} (h : r ≤ Nat.pow 2 53) :
    grain (r * Nat.pow 2 s) ∣ r * Nat.pow 2 s := by
  change 2 ^ ((r * 2 ^ s).log2 - 52) ∣ r * 2 ^ s
  rcases Nat.eq_zero_or_pos r with rfl | hr
  · simp
  -- With the one bit more the number is a power of two, and its grain a lesser one.
  rcases Nat.lt_or_eq_of_le h with h | rfl
  · refine Nat.dvd_mul_left_of_dvd (Nat.pow_dvd_pow 2 ?_) r
    have hpos : r * 2 ^ s ≠ 0 := Nat.ne_of_gt (Nat.mul_pos hr (Nat.two_pow_pos s))
    have : (r * 2 ^ s).log2 < 53 + s := by
      rw [Nat.log2_lt hpos, Nat.pow_add]
      exact Nat.mul_lt_mul_of_pos_right h (Nat.two_pow_pos s)
    omega
  · change 2 ^ ((2 ^ 53 * 2 ^ s).log2 - 52) ∣ 2 ^ 53 * 2 ^ s
    rw [← Nat.pow_add, Nat.log2_two_pow]
    exact Nat.pow_dvd_pow 2 (by omega)

/-- A rounded fraction is 53 bits of grains, or one bit more. -/
theorem roundHalfEven_grain_le (num den : Nat) :
    roundHalfEven num (den * grain (num / den)) ≤ Nat.pow 2 53 := by
  apply Nat.le_trans (roundHalfEven_le ..)
  rw [← Nat.div_div_eq_div_mul]
  -- Divided by its grain a number keeps its 53 leading bits.
  have hlt : num / den / 2 ^ ((num / den).log2 - 52) < 2 ^ 53 := by
    rw [Nat.div_lt_iff_lt_mul (Nat.two_pow_pos _), ← Nat.pow_add]
    exact Nat.lt_of_lt_of_le Nat.lt_log2_self (Nat.pow_le_pow_right (by decide) (by omega))
  exact hlt

/-- A rounded number of units has at most 53 significant bits. -/
theorem grain_dvd_roundUnits (num den : Nat) :
    grain (roundUnits num den) ∣ roundUnits num den :=
  grain_dvd_mul (roundHalfEven_grain_le num den)

/-- A number that has at most 53 significant bits is rounded to itself. -/
theorem roundUnits_eq_self {units : Nat} (h : grain units ∣ units) :
    roundUnits units 1 = units := by
  obtain ⟨q, hq⟩ := h
  simp only [roundUnits, Nat.div_one, Nat.one_mul]
  have hpos := grain_pos units
  -- The grain is hidden, since the number stands in it as well as before it.
  generalize grain units = g at *
  rw [hq, Nat.mul_comm g q, roundHalfEven_mul_right q hpos]

end Binary64

/-- A value of the format: not a number, an infinity, or a signed number of units. -/
inductive Binary64
  | nan
  | infinite (negative : Bool)
  | finite (negative : Bool) (units : Nat) (representable : Binary64.Representable units)
deriving DecidableEq

namespace Binary64

/-- The value nearest to a fraction of the unit, with the given sign. A magnitude that rounds to
    the limit or beyond is infinite; one that rounds to nothing is a zero of that sign. -/
def ofRatio (negative : Bool) (num den : Nat) : Binary64 :=
  if h : roundUnits num den < unitsLimit then
    .finite negative (roundUnits num den) ⟨h, grain_dvd_roundUnits num den⟩
  else .infinite negative

/-- A value is recovered from its own number of units. -/
theorem ofRatio_units (negative : Bool) {units : Nat} (h : Representable units) :
    ofRatio negative units 1 = .finite negative units h := by
  have hr := roundUnits_eq_self h.2
  simp [ofRatio, hr, h.1]

/-- The value nearest to a natural number. -/
def ofNat (n : Nat) : Binary64 := ofRatio false (n * unitsPerOne) 1

/-- Zero stands for a value where there is none. -/
instance : Inhabited Binary64 := ⟨ofNat 0⟩

/-- A whole number of at most 53 bits is a value, and so is the next one. -/
theorem representable_whole {n : Nat} (h : n ≤ Nat.pow 2 53) :
    Representable (n * unitsPerOne) := by
  have hlimit : Nat.pow 2 53 * unitsPerOne < unitsLimit := by decide +kernel
  refine ⟨Nat.lt_of_le_of_lt (Nat.mul_le_mul_right unitsPerOne h) hlimit, ?_⟩
  -- The exponent is hidden, lest the power be computed.
  obtain ⟨s, hs⟩ : ∃ s, unitsPerOne = Nat.pow 2 s := by
    refine ⟨1074, ?_⟩
    decide +kernel
  exact hs ▸ grain_dvd_mul h

/-- Such a number is not rounded. -/
theorem ofNat_of_le {n : Nat} (h : n ≤ Nat.pow 2 53) :
    ofNat n = .finite false (n * unitsPerOne) (representable_whole h) :=
  ofRatio_units false (representable_whole h)

/-- The value has a number of units. -/
def isFinite : Binary64 → Bool
  | finite .. => true
  | _ => false

/-- Zero, of either sign. -/
def isZero : Binary64 → Bool
  | finite _ units _ => units = 0
  | _ => false

/-- The value is a number below zero; a negative zero is not. -/
def isBelowZero : Binary64 → Bool
  | nan => false
  | infinite negative => negative
  | finite negative units _ => negative && units ≠ 0

/-- The whole part: the fraction is dropped, toward zero. Values beyond the range from `least` to
    `greatest`, the infinities with them, give the nearer end of it, and `nan` gives zero. -/
def toIntWithin (least greatest : Int) : Binary64 → Int
  | nan => 0
  | infinite negative => if negative then least else greatest
  | finite negative units _ =>
    let whole : Int := (units / unitsPerOne : Nat)
    max least (min greatest (if negative then -whole else whole))

end Binary64

end Fish
