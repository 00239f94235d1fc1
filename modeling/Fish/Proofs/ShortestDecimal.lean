import Fish.Binary64.Decimal
import Fish.Proofs.Rounding

/-!
# Decimals that read back

The exact value of a number of units, written with 1074 places, is rounded to itself. So the search
for the shortest decimal, which keeps only those that are rounded to the number of units, never ends
without one.

A decimal outside the range of the format is recognized by its exponent and the number of its
digits. This settles no decimal that would be rounded to anything else.

Main lemmas:

* `Decimal.units_shortest`      the shortest decimal has the given number of units
* `Decimal.units_of_isTiny`     a decimal that is too small has none
* `Decimal.limit_le_units_of_isHuge`   one that is too large has too many
* `Decimal.toBinary64_eq_ofRatio`      the value of a decimal is its fraction, rounded
-/

namespace Fish.Decimal

open Binary64

/-! ## The shortest decimal -/

/-- A decimal of a grid has the digits that were given. -/
theorem digits_onGrid (digits places : Nat) : (onGrid digits places).digits = digits := rfl

/-- On the finest grid every number of units has its exact value. -/
theorem units_onGrid_exactDigits {units : Nat} (h : Representable units) :
    (onGrid (exactDigits units) 0).units = units := by
  have hwhole : (onGrid (exactDigits units) 0).exponent.toNat = 0 := rfl
  have hplaces : (-(onGrid (exactDigits units) 0).exponent).toNat = 1074 := rfl
  rw [Decimal.units, num, den, digits_onGrid, hwhole, hplaces]
  unfold exactDigits unitsPerOne
  -- The number of places only has to be the same for both bases.
  generalize 1074 = n
  have hnum : Nat.pow 5 n * units * Nat.pow 10 0 * Nat.pow 2 n = units * Nat.pow 10 n := by
    show 5 ^ n * units * 10 ^ 0 * 2 ^ n = units * (5 * 2) ^ n
    rw [Nat.pow_zero, Nat.mul_one, Nat.mul_comm (5 ^ n), Nat.mul_assoc, Nat.mul_pow]
  have hden : 1 * Nat.pow 10 n = Nat.pow 10 n := Nat.one_mul _
  have hscale := roundUnits_scale units 1 (Nat.pow_pos (by decide) : 0 < 10 ^ n)
  calc roundUnits (Nat.pow 5 n * units * Nat.pow 10 0 * Nat.pow 2 n) (Nat.pow 10 n)
      = roundUnits (units * Nat.pow 10 n) (1 * Nat.pow 10 n) := by rw [hnum, hden]
    _ = roundUnits units 1 := hscale
    _ = units := roundUnits_eq_self h.2

/-- A candidate reads back. -/
theorem units_of_mem_candidates {units places digits : Nat} (h : digits ∈ candidates units places) :
    (onGrid digits places).units = units :=
  of_decide_eq_true (List.mem_filter.1 h).2

/-- Wherever the search begins, the decimal that it ends with reads back. -/
theorem units_shortestFrom {units : Nat} (h : Representable units) (places : Nat) :
    (shortestFrom units places).units = units := by
  induction places with
  | zero => exact units_onGrid_exactDigits h
  | succ places ih =>
    rw [shortestFrom]
    -- A decimal of this grid is taken if it reads back, and else the grid is refined.
    cases hc : candidates units (places + 1) with
    | nil => exact ih
    | cons digits others =>
      have hmem : digits ∈ candidates units (places + 1) := hc ▸ List.mem_cons_self
      exact units_of_mem_candidates hmem

/-- The shortest decimal has the given number of units. -/
theorem units_shortest {units : Nat} (h : Representable units) : (shortest units).units = units :=
  units_shortestFrom h _

/-! ## The value of a decimal -/

/-- A decimal without digits has no unit. -/
theorem units_of_digits_eq_zero {d : Decimal} (h : d.digits = 0) : d.units = 0 := by
  have hnum : d.num = 0 := by rw [num, h, Nat.zero_mul, Nat.zero_mul]
  have hden : 0 < d.den := Nat.pow_pos (by decide)
  rw [Decimal.units, hnum]
  exact roundUnits_of_lt hden

/-- A decimal that is too small for its digits has no unit. -/
theorem units_of_isTiny {d : Decimal} (h : d.isTiny = true) : d.units = 0 := by
  have hfew : (d.digits.log2 + 1080 : Int) < 3 * -d.exponent := of_decide_eq_true h
  have hwhole : d.exponent.toNat = 0 := by omega
  -- A digit of the denominator outweighs three bits, so these are enough for half a unit.
  have hbits : d.digits.log2 + 1 + (1074 + 1) ≤ 3 * (-d.exponent).toNat := by omega
  rw [Decimal.units, num, den, hwhole]
  unfold unitsPerOne
  generalize 1074 = n at hbits
  generalize (-d.exponent).toNat = count at hbits
  refine roundUnits_of_lt ?_
  show 2 * (d.digits * 1 * 2 ^ n) < 10 ^ count
  calc 2 * (d.digits * 1 * 2 ^ n) = d.digits * 2 ^ (n + 1) := by
        rw [Nat.mul_one, Nat.mul_left_comm, Nat.pow_succ']
    _ < 2 ^ (d.digits.log2 + 1) * 2 ^ (n + 1) :=
      Nat.mul_lt_mul_of_pos_right Nat.lt_log2_self (Nat.two_pow_pos _)
    _ = 2 ^ (d.digits.log2 + 1 + (n + 1)) := (Nat.pow_add ..).symm
    _ ≤ 2 ^ (3 * count) := Nat.pow_le_pow_right (by decide) hbits
    _ = 8 ^ count := Nat.pow_mul 2 3 count
    _ ≤ 10 ^ count := Nat.pow_le_pow_left (by decide) count

/-- A decimal that is too large for the format is rounded beyond its limit. -/
theorem limit_le_units_of_isHuge {d : Decimal} (h : d.isHuge = true) : unitsLimit ≤ d.units := by
  obtain ⟨hdigits, hexp⟩ : d.digits ≠ 0 ∧ 400 < d.exponent := by simpa [isHuge] using h
  have hden : d.den = 1 := by
    rw [den, show (-d.exponent).toNat = 0 by omega, Nat.pow_eq, Nat.pow_zero]
  have hpow {c e : Nat} (hle : c ≤ e) : Nat.pow 10 c ≤ Nat.pow 10 e :=
    Nat.pow_le_pow_right (by decide) hle
  -- The exponent is hidden, lest the power be computed.
  obtain ⟨least, hleast, hlimit⟩ : ∃ least : Nat, least = 401 ∧
      2 * unitsLimit ≤ Nat.pow 10 least * unitsPerOne := by
    refine ⟨401, rfl, ?_⟩
    decide +kernel
  have hnum : 2 * unitsLimit ≤ d.num := by
    have hten : Nat.pow 10 least ≤ d.digits * Nat.pow 10 d.exponent.toNat :=
      Nat.le_trans (hpow (by omega)) (Nat.le_mul_of_pos_left _ (Nat.pos_of_ne_zero hdigits))
    exact Nat.le_trans hlimit (Nat.mul_le_mul_right unitsPerOne hten)
  have hpos : 0 < unitsLimit := by decide +kernel
  -- Rounding takes away less than half of it.
  obtain ⟨hnear, -⟩ := roundUnits_near d.num (show 0 < d.den by omega)
  have hgrain := mul_grain_cases d.num d.den
  rw [Decimal.units]
  rw [hden] at hnear hgrain ⊢
  have hbits : Nat.pow 2 52 = 4503599627370496 := rfl
  rw [hbits] at hgrain
  omega

/-- The value of a decimal is the one nearest to its fraction: where the fraction is not formed, it
    would be rounded to nothing or beyond the limit. -/
theorem toBinary64_eq_ofRatio (negative : Bool) (d : Decimal) :
    d.toBinary64 negative = .ofRatio negative d.num d.den := by
  by_cases hnone : (d.digits = 0 || d.isTiny) = true
  · have hzero : d.units = 0 := by
      rcases Bool.or_eq_true _ _ ▸ hnone with hdigits | htiny
      · exact units_of_digits_eq_zero (of_decide_eq_true hdigits)
      · exact units_of_isTiny htiny
    have hround : roundUnits 0 1 = 0 := roundUnits_of_lt (by decide)
    have hrep : Representable 0 := ⟨by decide +kernel, Nat.dvd_zero _⟩
    rw [toBinary64, if_pos hnone, ofRatio_of_roundUnits negative hround hrep]
    exact (ofRatio_of_roundUnits negative hzero hrep).symm
  · by_cases hhuge : d.isHuge = true
    · have hover := limit_le_units_of_isHuge hhuge
      rw [toBinary64, if_neg hnone, if_pos hhuge, ofRatio, dif_neg]
      exact Nat.not_lt_of_le hover
    · rw [toBinary64, if_neg hnone, if_neg hhuge]

/-- A decimal that is rounded to a number of units of the format is read as that number of units. -/
theorem toBinary64_eq {d : Decimal} {units : Nat} (negative : Bool) (hd : d.units = units)
    (h : Representable units) : d.toBinary64 negative = .finite negative units h := by
  rw [toBinary64_eq_ofRatio]
  exact ofRatio_of_roundUnits negative hd h

end Fish.Decimal
