import Fish.Binary64.Arithmetic

/-!
# Rounding a fraction

Rounding depends on the value of a fraction only, not on how it is written, and moves it by at most
half of the last of its 53 leading bits. That is too little to carry a quotient over a whole number:
numbers of at most 53 bits have a rounded quotient between the same whole numbers as the exact one,
and the quotient of a value by a greater one stays below one.

Main lemmas:

* `Binary64.roundUnits_scale`      a fraction may be written with other numbers
* `Binary64.roundUnits_near`       how far rounding moves a fraction
* `Binary64.roundUnits_quotient`   quotients of whole numbers stay between their neighbours
* `Binary64.roundUnits_lt_one`     quotients by a greater value stay below one
-/

namespace Fish.Binary64

/-! ## The value of a fraction -/

/-- The nearest whole number depends on the value of a fraction only. -/
theorem roundHalfEven_scale (num den : Nat) {c : Nat} (h : 0 < c) :
    roundHalfEven (num * c) (den * c) = roundHalfEven num den := by
  have hdiv : num * c / (den * c) = num / den := Nat.mul_div_mul_right num den h
  have hmod : 2 * (num * c % (den * c)) = 2 * (num % den) * c := by
    rw [Nat.mul_mod_mul_right, Nat.mul_assoc]
  simp only [roundHalfEven, hdiv, hmod, Nat.mul_lt_mul_right h]

/-- Rounding depends on the value of a fraction only. -/
theorem roundUnits_scale (num den : Nat) {c : Nat} (h : 0 < c) :
    roundUnits (num * c) (den * c) = roundUnits num den := by
  have hdiv : num * c / (den * c) = num / den := Nat.mul_div_mul_right num den h
  rw [roundUnits, hdiv, Nat.mul_right_comm, roundHalfEven_scale _ _ h, ← roundUnits]

/-- Less than half a unit is rounded to nothing. -/
theorem roundUnits_of_lt {num den : Nat} (h : 2 * num < den) : roundUnits num den = 0 := by
  have hless : num < den := by omega
  have hgrain : grain 0 = 1 := rfl
  have hdiv : num / den = 0 := Nat.div_eq_of_lt hless
  rw [roundUnits, hdiv, hgrain, Nat.mul_one, Nat.mul_one, roundHalfEven, Nat.mod_eq_of_lt hless,
    if_pos h, hdiv]

/-- The value nearest to a fraction that is rounded to a number of units of the format. -/
theorem ofRatio_of_roundUnits (negative : Bool) {num den units : Nat}
    (hround : roundUnits num den = units) (h : Representable units) :
    ofRatio negative num den = .finite negative units h := by
  subst hround
  exact dif_pos h.1

/-- The nearest value is finite, with the rounded number of units, or it is infinite. -/
theorem ofRatio_cases (negative : Bool) (num den : Nat) :
    (∃ h, ofRatio negative num den = finite negative (roundUnits num den) h) ∨
      ofRatio negative num den = infinite negative := by
  unfold ofRatio
  split
  · exact .inl ⟨⟨‹_›, grain_dvd_roundUnits num den⟩, rfl⟩
  · exact .inr rfl

/-! ## How far rounding moves -/

/-- The nearest whole number is at most half of one away. -/
theorem roundHalfEven_near (num : Nat) {den : Nat} (h : 0 < den) :
    2 * num ≤ 2 * (roundHalfEven num den * den) + den ∧
      2 * (roundHalfEven num den * den) ≤ 2 * num + den := by
  have hsplit : num / den * den + num % den = num := Nat.div_add_mod' num den
  have hless : num % den < den := Nat.mod_lt num h
  have hnext : (num / den + 1) * den = num / den * den + den := Nat.succ_mul ..
  unfold roundHalfEven
  split
  · omega
  · split
    · omega
    · -- In a tie both neighbours are equally far, so it does not matter which of them is even.
      rcases Nat.mod_two_eq_zero_or_one (num / den) with heven | hodd
      · rw [heven, Nat.add_zero]
        omega
      · rw [hodd]
        omega

/-- Rounding moves a fraction by at most half of the last of its 53 leading bits. -/
theorem roundUnits_near (num : Nat) {den : Nat} (h : 0 < den) :
    2 * num ≤ 2 * (roundUnits num den * den) + den * grain (num / den) ∧
      2 * (roundUnits num den * den) ≤ 2 * num + den * grain (num / den) := by
  have hgrain : 0 < den * grain (num / den) := Nat.mul_pos h (grain_pos _)
  have hswap : roundUnits num den * den =
      roundHalfEven num (den * grain (num / den)) * (den * grain (num / den)) := by
    rw [roundUnits, Nat.mul_assoc, Nat.mul_comm (grain (num / den))]
  rw [hswap]
  exact roundHalfEven_near num hgrain

/-- The last of the leading bits of a fraction is the unit, or it has 52 bits above it. -/
theorem mul_grain_cases (num den : Nat) :
    den * grain (num / den) = den ∨ den * grain (num / den) * Nat.pow 2 52 ≤ num := by
  by_cases hfew : (num / den).log2 ≤ 52
  · left
    rw [grain, Nat.sub_eq_zero_of_le hfew]
    exact Nat.mul_one den
  · right
    show den * 2 ^ ((num / den).log2 - 52) * 2 ^ 52 ≤ num
    have hpos : num / den ≠ 0 := by
      intro hzero
      rw [hzero] at hfew
      exact hfew (Nat.zero_le _)
    calc den * 2 ^ ((num / den).log2 - 52) * 2 ^ 52
        = den * 2 ^ (num / den).log2 := by
          rw [Nat.mul_assoc, ← Nat.pow_add, Nat.sub_add_cancel (by omega)]
      _ ≤ den * (num / den) := Nat.mul_le_mul_left den (Nat.log2_self_le hpos)
      _ ≤ num := Nat.mul_div_le num den

/-- A magnitude of at least one unit is not rounded to nothing. -/
theorem roundUnits_eq_zero_iff {units : Nat} : roundUnits units 1 = 0 ↔ units = 0 := by
  constructor
  · intro hzero
    obtain ⟨hlow, -⟩ := roundUnits_near units Nat.one_pos
    -- Rounding to nothing would move the magnitude by all of it, which is more than half of its
    -- last bit.
    rcases mul_grain_cases units 1 with hunit | hle
    · omega
    · have hpow : Nat.pow 2 52 = 4503599627370496 := rfl
      rw [hpow] at hle
      omega
  · rintro rfl
    exact roundUnits_of_lt Nat.one_pos

/-! ## Quotients of whole numbers -/

/-- One is a power of two, counted in units. The exponent is hidden, lest the power be computed. -/
theorem ones_eq_pow : ∃ e, unitsPerOne = Nat.pow 2 e := by
  refine ⟨1074, ?_⟩
  decide +kernel

/-- A whole number of ones is rounded to itself if it has at most 53 bits. -/
theorem roundUnits_mul_ones {n den : Nat} (h : n ≤ Nat.pow 2 53) (hden : 0 < den) :
    roundUnits (n * den * unitsPerOne) den = n * unitsPerOne := by
  have hscale := roundUnits_scale (n * unitsPerOne) 1 hden
  rw [Nat.one_mul, Nat.mul_right_comm] at hscale
  rw [hscale, roundUnits_eq_self (representable_whole h).2]

/-- Rounding moves the quotient of whole numbers of at most 53 bits by less than one part of the
    denominator. -/
theorem roundUnits_quotient_near {i j : Nat} (hi : i < Nat.pow 2 53) (hj : 0 < j)
    (hj53 : j ≤ Nat.pow 2 53) :
    i * unitsPerOne < roundUnits (i * unitsPerOne) j * j + unitsPerOne ∧
      roundUnits (i * unitsPerOne) j * j < i * unitsPerOne + unitsPerOne := by
  have hsmall : j * grain (i * unitsPerOne / j) < 2 * unitsPerOne := by
    -- The last bit of the quotient is worth less than two parts: either it is a unit, or 52 bits
    -- stand above it.
    rcases mul_grain_cases (i * unitsPerOne) j with hunit | hle
    · have hbig : Nat.pow 2 53 < 2 * unitsPerOne := by decide +kernel
      rw [hunit]
      exact Nat.lt_of_le_of_lt hj53 hbig
    · refine Nat.lt_of_mul_lt_mul_right (a := Nat.pow 2 52) (Nat.lt_of_le_of_lt hle ?_)
      have hpow : 2 * Nat.pow 2 52 = Nat.pow 2 53 := rfl
      rw [Nat.mul_right_comm, hpow]
      exact Nat.mul_lt_mul_of_pos_right hi unitsPerOne_pos
  obtain ⟨hlow, hhigh⟩ := roundUnits_near (i * unitsPerOne) hj
  omega

/-- The quotient of whole numbers of at most 53 bits lies between the same whole numbers before
    and after rounding, and it is one of them only if it was before. -/
theorem roundUnits_quotient {i j : Nat} (hi : i < Nat.pow 2 53) (hj : 0 < j)
    (hj53 : j ≤ Nat.pow 2 53) :
    roundUnits (i * unitsPerOne) j / unitsPerOne = i / j ∧
      (roundUnits (i * unitsPerOne) j % unitsPerOne = 0 ↔ i % j = 0) := by
  have hsplit : i / j * j + i % j = i := Nat.div_add_mod' i j
  have hless : i % j < j := Nat.mod_lt i hj
  rcases Nat.eq_zero_or_pos (i % j) with hexact | hrest
  · -- An exact quotient is not rounded at all.
    have hwhole : i / j ≤ Nat.pow 2 53 := Nat.le_trans (Nat.div_le_self ..) (Nat.le_of_lt hi)
    have hround := roundUnits_mul_ones hwhole hj
    rw [show i / j * j = i by omega] at hround
    rw [hround, Nat.mul_div_cancel _ unitsPerOne_pos, Nat.mul_mod_left]
    exact ⟨rfl, fun _ => hexact, fun _ => rfl⟩
  · -- Otherwise rounding moves the quotient by less than one part of the denominator.
    obtain ⟨hlow, hhigh⟩ := roundUnits_quotient_near hi hj hj53
    have hpos := unitsPerOne_pos
    generalize roundUnits (i * unitsPerOne) j = q at *
    generalize unitsPerOne = one at *
    -- The numerator is at least one part above the lower neighbour and one below the upper.
    have habove : (i / j * j + 1) * one ≤ i * one := Nat.mul_le_mul_right one (by omega)
    have hbelow : (i + 1) * one ≤ (i / j + 1) * j * one := by
      refine Nat.mul_le_mul_right one ?_
      rw [Nat.succ_mul]
      omega
    have hgt : i / j * one < q := by
      refine Nat.lt_of_mul_lt_mul_right (a := j) ?_
      rw [Nat.mul_right_comm]
      rw [Nat.succ_mul] at habove
      omega
    have hlt : q < (i / j + 1) * one := by
      refine Nat.lt_of_mul_lt_mul_right (a := j) ?_
      rw [Nat.mul_right_comm]
      rw [Nat.succ_mul] at hbelow
      omega
    have hdiv : q / one = i / j := Nat.div_eq_of_lt_le (Nat.le_of_lt hgt) hlt
    have hrem : one * (q / one) + q % one = q := Nat.div_add_mod q one
    rw [hdiv, Nat.mul_comm] at hrem
    refine ⟨hdiv, ?_⟩
    omega

/-! ## Quotients by a greater value -/

/-- A magnitude has at most 53 bits above its grain. -/
theorem lt_mul_grain (units : Nat) : units < Nat.pow 2 53 * grain units := by
  show units < 2 ^ 53 * 2 ^ (units.log2 - 52)
  rw [← Nat.pow_add]
  exact Nat.lt_of_lt_of_le Nat.lt_log2_self (Nat.pow_le_pow_right (by decide) (by omega))

/-- A greater magnitude of the format is at least a grain greater. -/
theorem add_grain_le {u v : Nat} (hu : Representable u) (hv : Representable v) (h : u < v) :
    u + grain u ≤ v := by
  have hlog : u.log2 ≤ v.log2 := by
    rcases Nat.eq_zero_or_pos u with rfl | hpos
    · exact Nat.zero_le _
    · exact (Nat.le_log2 (by omega)).2 (Nat.le_trans (Nat.log2_self_le (by omega)) (Nat.le_of_lt h))
  have hgrains : grain u ∣ grain v := Nat.pow_dvd_pow 2 (by omega)
  -- Both magnitudes are multiples of the grain of the lesser one.
  have hgap : grain u ∣ v - u := Nat.dvd_sub (Nat.dvd_trans hgrains hv.2) hu.2
  have hle : grain u ≤ v - u := Nat.le_of_dvd (by omega) hgap
  omega

/-- The next greater magnitude of the format is not much greater. -/
theorem lt_mul_gap {u v : Nat} (hu : Representable u) (hv : Representable v) (h : u < v) :
    u < Nat.pow 2 53 * (v - u) := by
  have hgap := add_grain_le hu hv h
  exact Nat.lt_of_lt_of_le (lt_mul_grain u) (Nat.mul_le_mul_left _ (by omega))

/-- The quotient of a magnitude by a greater one is less than one, also after rounding. -/
theorem roundUnits_lt_one {u v : Nat} (hu : Representable u) (hv : Representable v) (h : u < v) :
    roundUnits (u * unitsPerOne) v < unitsPerOne := by
  have hgap := lt_mul_gap hu hv h
  obtain ⟨-, hhigh⟩ := roundUnits_near (u * unitsPerOne) (show 0 < v by omega)
  have hpos := unitsPerOne_pos
  have hbig : Nat.pow 2 53 + 1 ≤ 2 * unitsPerOne := by decide +kernel
  -- Rounding moves the quotient by less than its distance from one.
  have herror : v * grain (u * unitsPerOne / v) < 2 * ((v - u) * unitsPerOne) := by
    rcases mul_grain_cases (u * unitsPerOne) v with hunit | hle
    · have hmul : (v - u) * (Nat.pow 2 53 + 1) ≤ (v - u) * (2 * unitsPerOne) :=
        Nat.mul_le_mul_left _ hbig
      rw [Nat.mul_left_comm 2]
      rw [Nat.mul_succ, Nat.mul_comm (v - u) (Nat.pow 2 53)] at hmul
      omega
    · refine Nat.lt_of_mul_lt_mul_right (a := Nat.pow 2 52) (Nat.lt_of_le_of_lt hle ?_)
      calc u * unitsPerOne
          < Nat.pow 2 53 * (v - u) * unitsPerOne := Nat.mul_lt_mul_of_pos_right hgap hpos
        _ = 2 * ((v - u) * unitsPerOne) * Nat.pow 2 52 := by
          rw [Nat.mul_assoc, Nat.mul_right_comm]
  refine Nat.lt_of_mul_lt_mul_right (a := v) ?_
  have hsplit : unitsPerOne * v = u * unitsPerOne + (v - u) * unitsPerOne := by
    rw [← Nat.add_mul, Nat.add_sub_cancel' (Nat.le_of_lt h), Nat.mul_comm]
  omega

end Fish.Binary64
