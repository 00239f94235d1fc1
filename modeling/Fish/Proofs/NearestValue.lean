import Fish.Binary64.Arithmetic
import Fish.Proofs.Rounding
import Mathlib.Algebra.Order.Field.Basic
import Mathlib.Algebra.Order.Field.Rat
import Mathlib.Tactic.FieldSimp
import Mathlib.Tactic.Linarith

/-!
# The nearest value

A rounded fraction is the nearest of all magnitudes with at most 53 significant bits, and of two
that are equally near it is the one with an even significand. Next to the fraction these magnitudes
are the multiples of its grain; the others are coarser than the fraction only below its leading bit,
and that bit alone is nearer than any of them.

The format ends at a power of two, but what decides whether a fraction is rounded to a value of the
format is the middle between the greatest of these and that power. The middle itself goes up, since
the greatest magnitude has an odd significand.

Main lemmas:

* `Binary64.distance_roundUnits_le`      a rounded fraction is nearest
* `Binary64.even_leadingBits_of_tie`     and even if another magnitude is as near
* `Binary64.roundUnits_lt_limit_iff`     which fractions are rounded to values of the format
* `Binary64.isNearest_finite`            the same in terms of rational numbers
* `Binary64.IsNearest.unique`            only one value is nearest in this sense
-/

namespace Fish.Binary64

/-- The significant bits of a magnitude, as a whole number. -/
def leadingBits (units : Nat) : Nat := units / grain units

/-- How far a magnitude is from a fraction, in parts of the denominator. One of the differences is
    nothing. -/
def distance (num den units : Nat) : Nat := (num - units * den) + (units * den - num)

variable {k s u v w num den : Nat}

/-! ## Significands -/

/-- A significand with zeros after it: if there are any, its leading one is the first of 53 bits. -/
theorem grain_mul_pow (hk : k < Nat.pow 2 53) (hs : s = 0 ∨ Nat.pow 2 52 ≤ k) :
    grain (k * Nat.pow 2 s) = Nat.pow 2 s := by
  show 2 ^ ((k * 2 ^ s).log2 - 52) = 2 ^ s
  rcases Nat.eq_zero_or_pos k with rfl | hpos
  · have hs : s = 0 := hs.resolve_right (by decide)
    rw [hs]
    rfl
  have hne : k * 2 ^ s ≠ 0 := Nat.ne_of_gt (Nat.mul_pos hpos (Nat.two_pow_pos s))
  have hlow : (k * 2 ^ s).log2 < 53 + s := by
    rw [Nat.log2_lt hne, Nat.pow_add]
    exact Nat.mul_lt_mul_of_pos_right hk (Nat.two_pow_pos s)
  -- The product has 53 bits and the zeros, or there are none and it may have fewer.
  rcases hs with rfl | hs
  · rw [Nat.sub_eq_zero_of_le (by omega)]
  · have hhigh : 52 + s ≤ (k * 2 ^ s).log2 := by
      rw [Nat.le_log2 hne, Nat.pow_add]
      exact Nat.mul_le_mul_right (2 ^ s) hs
    congr 1
    omega

/-- Every magnitude of at most 53 significant bits is of this form. -/
theorem exists_eq_mul_pow (h : grain u ∣ u) :
    ∃ k s, u = k * Nat.pow 2 s ∧ k < Nat.pow 2 53 ∧ (s = 0 ∨ Nat.pow 2 52 ≤ k) := by
  obtain ⟨k, hk⟩ := h
  have hpos := grain_pos u
  have hu : u = k * grain u := hk.trans (Nat.mul_comm ..)
  -- The significand is the number of grains.
  refine ⟨k, u.log2 - 52, hu, ?_, ?_⟩
  · refine Nat.lt_of_mul_lt_mul_right (a := grain u) ?_
    rw [← hu]
    exact lt_mul_grain u
  · by_cases hfew : u.log2 ≤ 52
    · exact .inl (Nat.sub_eq_zero_of_le hfew)
    · -- The leading one of the magnitude is that of its significand.
      have hne : u ≠ 0 := by
        intro hzero
        rw [hzero] at hfew
        exact hfew (Nat.zero_le _)
      have hlead : Nat.pow 2 52 * grain u = 2 ^ u.log2 := by
        show 2 ^ 52 * 2 ^ (u.log2 - 52) = 2 ^ u.log2
        rw [← Nat.pow_add, Nat.add_sub_cancel' (by omega)]
      refine .inr (Nat.le_of_mul_le_mul_right ?_ (grain_pos u))
      rw [hlead, ← hu]
      exact Nat.log2_self_le hne

/-- Its significant bits are those before the zeros. -/
theorem leadingBits_mul_pow (hk : k < Nat.pow 2 53) (hs : s = 0 ∨ Nat.pow 2 52 ≤ k) :
    leadingBits (k * Nat.pow 2 s) = k := by
  rw [leadingBits, grain_mul_pow hk hs]
  exact Nat.mul_div_cancel k (Nat.two_pow_pos s)

/-- An even number of grains has an even significand, also if it has one bit more. -/
theorem even_leadingBits_mul_pow (hk : k ≤ Nat.pow 2 53) (hs : s = 0 ∨ Nat.pow 2 52 ≤ k)
    (heven : k % 2 = 0) : leadingBits (k * Nat.pow 2 s) % 2 = 0 := by
  rcases Nat.lt_or_eq_of_le hk with hlt | rfl
  · rw [leadingBits_mul_pow hlt hs, heven]
  · -- The bit that is one too many is a zero at the end.
    have hcarry : Nat.pow 2 53 * Nat.pow 2 s = Nat.pow 2 52 * Nat.pow 2 (s + 1) := by
      show 2 ^ 53 * 2 ^ s = 2 ^ 52 * 2 ^ (s + 1)
      rw [← Nat.pow_add, ← Nat.pow_add]
      congr 1
      omega
    have hpow : Nat.pow 2 52 < Nat.pow 2 53 := by decide
    rw [hcarry, leadingBits_mul_pow hpow (.inr (Nat.le_refl _))]

/-! ## The nearest whole number -/

/-- The distance from a number of grains is that number's distance from a fraction of grains. -/
theorem distance_mul (num den k g : Nat) : distance num den (k * g) = distance num (den * g) k := by
  rw [distance, distance, Nat.mul_assoc, Nat.mul_comm g]

/-- Different multiples of the denominator are apart by it at least. -/
theorem le_distance_add (num den : Nat) {j k : Nat} (h : j ≠ k) :
    den ≤ distance num den j + distance num den k := by
  unfold distance
  rcases Nat.lt_or_gt_of_ne h with hlt | hgt
  · have hnext : (j + 1) * den ≤ k * den := Nat.mul_le_mul_right den hlt
    rw [Nat.succ_mul] at hnext
    omega
  · have hnext : (k + 1) * den ≤ j * den := Nat.mul_le_mul_right den hgt
    rw [Nat.succ_mul] at hnext
    omega

/-- The nearest whole number is not below the whole part. -/
theorem le_roundHalfEven (num den : Nat) : num / den ≤ roundHalfEven num den := by
  unfold roundHalfEven
  split
  · omega
  · split <;> omega

/-- The nearest whole number is at most half of the denominator away. -/
theorem distance_roundHalfEven (num : Nat) (h : 0 < den) :
    2 * distance num den (roundHalfEven num den) ≤ den := by
  obtain ⟨hlow, hhigh⟩ := roundHalfEven_near num h
  unfold distance
  omega

/-- No other whole number is nearer. -/
theorem distance_roundHalfEven_le (num : Nat) (h : 0 < den) (j : Nat) :
    distance num den (roundHalfEven num den) ≤ distance num den j := by
  by_cases hj : j = roundHalfEven num den
  · rw [hj]
  · -- The two are apart by the denominator, of which the nearest one takes half at most.
    have hhalf := distance_roundHalfEven num h
    have hapart := le_distance_add num den hj
    omega

/-- Of two whole numbers that are equally near the even one is taken. -/
theorem even_roundHalfEven_of_tie {j : Nat} (h : 0 < den) (hj : j ≠ roundHalfEven num den)
    (htie : distance num den j = distance num den (roundHalfEven num den)) :
    roundHalfEven num den % 2 = 0 := by
  have hsplit : num / den * den + num % den = num := Nat.div_add_mod' num den
  have hless : num % den < den := Nat.mod_lt num h
  -- Both are half of the denominator away, so the remainder is half of it.
  have hhalf : 2 * distance num den (roundHalfEven num den) = den := by
    have hnear := distance_roundHalfEven num h
    have hapart := le_distance_add num den hj
    omega
  unfold roundHalfEven distance at hhalf
  unfold roundHalfEven
  split at hhalf
  · omega
  · split at hhalf
    · rw [Nat.succ_mul (num / den) den] at hhalf
      omega
    · rw [if_neg (by omega), if_neg (by omega)]
      omega

/-! ## The nearest magnitude -/

/-- The leading one of a fraction is the first of 53 bits, or its grain is the unit. -/
theorem le_roundHalfEven_grain (h : 0 < den) :
    (num / den).log2 - 52 = 0 ∨ Nat.pow 2 52 ≤ roundHalfEven num (den * grain (num / den)) := by
  rcases mul_grain_cases num den with hunit | hle
  · left
    have hone : 2 ^ ((num / den).log2 - 52) = 1 := (Nat.mul_eq_left (by omega)).1 hunit
    exact (Nat.pow_eq_one.1 hone).resolve_left (by decide)
  · right
    have hgrain : 0 < den * grain (num / den) := Nat.mul_pos h (grain_pos _)
    have hfloor : Nat.pow 2 52 ≤ num / (den * grain (num / den)) :=
      (Nat.le_div_iff_mul_le hgrain).2 (Nat.mul_comm _ (Nat.pow 2 52) ▸ hle)
    exact Nat.le_trans hfloor (le_roundHalfEven _ _)

/-- A magnitude that is no multiple of the grain of another has fewer bits. -/
theorem lt_of_not_grain_dvd {n : Nat} (hw : grain w ∣ w) (h : ¬grain n ∣ w) :
    w < Nat.pow 2 52 * grain n := by
  have hexp : w.log2 - 52 < n.log2 - 52 := by
    by_contra hle
    exact h (Nat.dvd_trans (Nat.pow_dvd_pow 2 (by omega)) hw)
  calc w < 2 ^ 53 * 2 ^ (w.log2 - 52) := lt_mul_grain w
    _ = 2 ^ 52 * 2 ^ (w.log2 - 52 + 1) := by rw [← Nat.pow_add, ← Nat.pow_add]; congr 1; omega
    _ ≤ 2 ^ 52 * 2 ^ (n.log2 - 52) :=
      Nat.mul_le_mul_left _ (Nat.pow_le_pow_right (by decide) hexp)

/-- The leading bit of the fraction is nearer than such a magnitude. -/
theorem distance_leading_lt (h : 0 < den) (hw : grain w ∣ w) (hdvd : ¬grain (num / den) ∣ w) :
    distance num den (Nat.pow 2 52 * grain (num / den)) < distance num den w := by
  have hlt := lt_of_not_grain_dvd hw hdvd
  have hgrain : den * grain (num / den) ≠ den := by
    intro hunit
    refine hdvd ?_
    rw [(Nat.mul_eq_left (by omega)).1 hunit]
    exact Nat.one_dvd w
  have hlead : Nat.pow 2 52 * grain (num / den) * den ≤ num := by
    rw [Nat.mul_right_comm, Nat.mul_assoc, Nat.mul_comm]
    exact (mul_grain_cases num den).resolve_left hgrain
  have hmul : (w + 1) * den ≤ Nat.pow 2 52 * grain (num / den) * den := Nat.mul_le_mul_right den hlt
  rw [Nat.succ_mul] at hmul
  unfold distance
  omega

/-- A rounded fraction is as near as any other magnitude with at most 53 significant bits. -/
theorem distance_roundUnits_le (num : Nat) (h : 0 < den) (hw : grain w ∣ w) :
    distance num den (roundUnits num den) ≤ distance num den w := by
  have hgrain : 0 < den * grain (num / den) := Nat.mul_pos h (grain_pos _)
  have hmultiple (j : Nat) :
      distance num den (roundUnits num den) ≤ distance num den (j * grain (num / den)) := by
    rw [roundUnits, distance_mul, distance_mul]
    exact distance_roundHalfEven_le num hgrain j
  -- Among the multiples of the grain the rounded fraction is nearest; any other magnitude is
  -- farther away than one of these, the leading bit.
  by_cases hdvd : grain (num / den) ∣ w
  · obtain ⟨j, rfl⟩ := hdvd
    rw [Nat.mul_comm]
    exact hmultiple j
  · exact Nat.le_of_lt (Nat.lt_of_le_of_lt (hmultiple _) (distance_leading_lt h hw hdvd))

/-- If another one is as near, the significand is even. -/
theorem even_leadingBits_of_tie (h : 0 < den) (hw : grain w ∣ w) (hne : w ≠ roundUnits num den)
    (htie : distance num den w = distance num den (roundUnits num den)) :
    leadingBits (roundUnits num den) % 2 = 0 := by
  have hgrain : 0 < den * grain (num / den) := Nat.mul_pos h (grain_pos _)
  by_cases hdvd : grain (num / den) ∣ w
  · obtain ⟨j, rfl⟩ := hdvd
    rw [Nat.mul_comm] at hne htie
    rw [roundUnits] at hne htie ⊢
    rw [distance_mul, distance_mul] at htie
    have hj : j ≠ roundHalfEven num (den * grain (num / den)) := by
      rintro rfl
      exact hne rfl
    have heven := even_roundHalfEven_of_tie hgrain hj htie
    exact even_leadingBits_mul_pow (roundHalfEven_grain_le num den) (le_roundHalfEven_grain h) heven
  · -- Other magnitudes are farther away than the leading bit is.
    have hlead := distance_leading_lt h hw hdvd
    have hgrain : grain (Nat.pow 2 52 * grain (num / den)) ∣ Nat.pow 2 52 * grain (num / den) :=
      grain_dvd_mul (by decide)
    have hnear := distance_roundUnits_le num h hgrain
    omega

/-- A magnitude that is not above the fraction is not above the rounded one. -/
theorem le_roundUnits (h : 0 < den) (hw : grain w ∣ w) (hle : w * den ≤ num) :
    w ≤ roundUnits num den := by
  have hnear := distance_roundUnits_le num h hw
  by_contra hlt
  have hmul : (roundUnits num den + 1) * den ≤ w * den :=
    Nat.mul_le_mul_right den (Nat.lt_of_not_le hlt)
  rw [Nat.succ_mul] at hmul
  unfold distance at hnear
  omega

/-! ## The end of the format -/

/-- The greatest magnitude of the format: 53 ones. -/
def greatest : Nat := (Nat.pow 2 53 - 1) * Nat.pow 2 2045

/-- Half of its grain. -/
def halfGrain : Nat := Nat.pow 2 2044

/-- The limit of the format is one grain above the greatest magnitude. -/
theorem greatest_add_grain : greatest + 2 * halfGrain = unitsLimit := by decide +kernel

/-- The limit has at most 53 significant bits, though it is not in the format. -/
theorem grain_dvd_limit : grain unitsLimit ∣ unitsLimit := by decide +kernel

/-- So has the greatest magnitude. -/
theorem grain_dvd_greatest : grain greatest ∣ greatest := by decide +kernel

/-- Its significand is 53 ones, which is odd. -/
theorem leadingBits_greatest : leadingBits greatest = Nat.pow 2 53 - 1 := by decide +kernel

/-- No magnitude of the format is greater. -/
theorem le_greatest (h : Representable u) : u ≤ greatest := by
  obtain ⟨hlimit, hgrain⟩ := h
  obtain ⟨k, s, rfl, hk, hs⟩ := exists_eq_mul_pow hgrain
  -- The exponent is hidden, lest the powers be computed.
  obtain ⟨e, hgreatest, hend⟩ : ∃ e, greatest = (Nat.pow 2 53 - 1) * Nat.pow 2 e ∧
      unitsLimit = Nat.pow 2 52 * Nat.pow 2 (e + 1) := by
    refine ⟨2045, ?_, ?_⟩ <;> decide +kernel
  rw [hgreatest]
  have hpow {c d : Nat} (hle : c ≤ d) : Nat.pow 2 c ≤ Nat.pow 2 d :=
    Nat.pow_le_pow_right (by decide) hle
  by_cases hfew : s ≤ e
  · exact Nat.mul_le_mul (Nat.le_sub_one_of_lt hk) (hpow hfew)
  · -- With more zeros after its 53 bits the magnitude would reach the limit.
    have hlead : Nat.pow 2 52 ≤ k := hs.resolve_left (by omega)
    have hreach := Nat.mul_le_mul hlead (hpow (Nat.lt_of_not_le hfew))
    rw [hend] at hlimit
    exact absurd hlimit (Nat.not_lt_of_le hreach)

/-- A fraction is rounded to a magnitude of the format if it is nearer to the greatest one than to
    the limit. -/
theorem roundUnits_lt_limit_iff (h : 0 < den) :
    roundUnits num den < unitsLimit ↔ num + halfGrain * den < unitsLimit * den := by
  have hlimit : unitsLimit * den = greatest * den + 2 * (halfGrain * den) := by
    rw [← greatest_add_grain, Nat.add_mul, Nat.mul_assoc]
  have hgap : 0 < halfGrain * den := Nat.mul_pos (by decide +kernel) h
  have hnear := distance_roundUnits_le num h grain_dvd_limit
  have hnear' := distance_roundUnits_le num h grain_dvd_greatest
  constructor
  · intro hlt
    have hle := le_greatest ⟨hlt, grain_dvd_roundUnits num den⟩
    by_contra hfar
    -- The greatest magnitude is the only one left, and the limit must not be nearer.
    have hge := le_roundUnits h grain_dvd_greatest (show greatest * den ≤ num by omega)
    have heq : roundUnits num den = greatest := Nat.le_antisymm hle hge
    by_cases hover : unitsLimit * den ≤ num
    · have := le_roundUnits h grain_dvd_limit hover
      omega
    · have htie : distance num den unitsLimit = distance num den (roundUnits num den) := by
        rw [heq] at hnear ⊢
        unfold distance at *
        omega
      have heven := even_leadingBits_of_tie h grain_dvd_limit (Nat.ne_of_gt hlt) htie
      rw [heq, leadingBits_greatest] at heven
      exact absurd heven (by decide)
  · -- Beyond the limit it would be farther away than the greatest magnitude is.
    intro hfar
    by_contra hge
    have hmul : unitsLimit * den ≤ roundUnits num den * den :=
      Nat.mul_le_mul_right den (Nat.le_of_not_lt hge)
    unfold distance at hnear'
    omega

/-! ## Rational numbers -/

/-- The rational number that a finite value is. The other values are none, and get zero. -/
def toRat : Binary64 → ℚ
  | finite negative units _ => (signed negative units : ℚ) / unitsPerOne
  | _ => 0

/-- The significand of a finite value. -/
def significand : Binary64 → Nat
  | finite _ units _ => leadingBits units
  | _ => 0

/-- The value has a minus; a zero may have one too. -/
def hasMinus : Binary64 → Bool
  | nan => false
  | infinite negative => negative
  | finite negative _ _ => negative

/-- No finite value is nearer to the number, and if another one is as near then the significand is
    even. -/
structure IsNearest (q : ℚ) (v : Binary64) : Prop where
  isFinite : v.isFinite = true
  le : ∀ w : Binary64, w.isFinite = true → |q - v.toRat| ≤ |q - w.toRat|
  even : ∀ w : Binary64, w.isFinite = true → w.toRat ≠ v.toRat → |q - w.toRat| = |q - v.toRat| →
    v.significand % 2 = 0

variable {q : ℚ} {a b : Bool}

/-- A finite value is its number of units, with its sign, over the units in one. -/
theorem toRat_finite (a : Bool) (h : Representable u) :
    (finite a u h).toRat = (signed a u : ℚ) / unitsPerOne := rfl

/-- A magnitude is the absolute value of a number with a sign. -/
theorem abs_signed (a : Bool) (num : Nat) : |(signed a num : ℚ)| = num := by
  cases a <;> simp [signed]

/-- How far a finite value is from a fraction of ones with a sign. -/
theorem abs_sub_toRat (a b : Bool) (num : Nat) (hden : 0 < den) (h : Representable u) :
    |(signed a num : ℚ) / (den * unitsPerOne) - (finite b u h).toRat| =
      (if a = b then distance num den u else num + u * den : Nat) / (den * unitsPerOne) := by
  have hone : (0 : ℚ) < unitsPerOne := Nat.cast_pos.2 unitsPerOne_pos
  have hden : (0 : ℚ) < den := Nat.cast_pos.2 hden
  -- With one sign the magnitudes are subtracted, with two they are added.
  have hint : (signed a num - signed b u * den).natAbs =
      if a = b then distance num den u else num + u * den := by
    unfold signed distance
    cases a <;> cases b <;> simp <;> omega
  rw [← hint, toRat_finite]
  have hsub : (signed a num : ℚ) / (den * unitsPerOne) - signed b u / unitsPerOne =
      ((signed a num - signed b u * den : Int) : ℚ) / (den * unitsPerOne) := by
    push_cast
    field_simp
  rw [hsub, abs_div, abs_of_pos (mul_pos hden hone), Nat.cast_natAbs, Int.cast_abs]

/-- The value that a fraction is rounded to is nearest to it. -/
theorem isNearest_finite (a : Bool) (num : Nat) (hden : 0 < den)
    (h : Representable (roundUnits num den)) :
    IsNearest ((signed a num : ℚ) / (den * unitsPerOne)) (finite a (roundUnits num den) h) := by
  have hpos : (0 : ℚ) < den * unitsPerOne :=
    mul_pos (Nat.cast_pos.2 hden) (Nat.cast_pos.2 unitsPerOne_pos)
  -- Zero is no nearer, which settles all values on the other side of it.
  have hzero : distance num den (roundUnits num den) ≤ num := by
    have hnear := distance_roundUnits_le (w := 0) num hden (Nat.dvd_zero _)
    unfold distance at hnear ⊢
    omega
  refine ⟨rfl, fun w hw => ?_, fun w hw hne htie => ?_⟩
  all_goals
    obtain ⟨b, u, hu, rfl⟩ : ∃ b u hu, w = finite b u hu := by
      cases w with
      | finite b u hu => exact ⟨b, u, hu, rfl⟩
      | nan | infinite => cases hw
  · rw [abs_sub_toRat a a num hden, abs_sub_toRat a b num hden, if_pos rfl,
      div_le_div_iff_of_pos_right hpos, Nat.cast_le]
    split
    · exact distance_roundUnits_le num hden hu.2
    · omega
  · rw [abs_sub_toRat a a num hden, abs_sub_toRat a b num hden, if_pos rfl,
      div_left_inj' (ne_of_gt hpos), Nat.cast_inj] at htie
    show leadingBits (roundUnits num den) % 2 = 0
    -- On the same side the distances are those of the magnitudes.
    by_cases hab : a = b
    · subst hab
      rw [if_pos rfl] at htie
      refine even_leadingBits_of_tie hden hu.2 ?_ htie
      rintro rfl
      exact hne rfl
    · -- On the other side of zero only zero itself can be as near.
      rw [if_neg hab] at htie
      have hnone : u * den = 0 := by omega
      obtain rfl : u = 0 := (Nat.mul_eq_zero.1 hnone).resolve_right (by omega)
      refine even_leadingBits_of_tie hden (Nat.dvd_zero _) (fun hround => hne ?_) ?_
      · rw [toRat_finite, toRat_finite, ← hround]
        cases a <;> cases b <;> rfl
      · unfold distance at htie ⊢
        omega

/-! ## Only one value is nearest -/

/-- Between two magnitudes with even significands there is another one. -/
theorem exists_between (hu : Representable u) (hv : Representable v) (h : u < v)
    (hueven : leadingBits u % 2 = 0) (hveven : leadingBits v % 2 = 0) :
    ∃ w, Representable w ∧ u < w ∧ w < v := by
  obtain ⟨k, s, rfl, hk, hs⟩ := exists_eq_mul_pow hu.2
  rw [leadingBits_mul_pow hk hs] at hueven
  -- The significand is followed by an odd one that is not too long either.
  have hk' : k + 1 < Nat.pow 2 53 := by
    have hodd : Nat.pow 2 53 % 2 = 0 := rfl
    omega
  have hs' : s = 0 ∨ Nat.pow 2 52 ≤ k + 1 := by omega
  have hnext : (k + 1) * Nat.pow 2 s = k * Nat.pow 2 s + Nat.pow 2 s := Nat.succ_mul ..
  have hpos : 0 < Nat.pow 2 s := Nat.two_pow_pos s
  have hle : (k + 1) * Nat.pow 2 s ≤ v := by
    have hgrain := add_grain_le hu hv h
    rwa [grain_mul_pow hk hs, ← hnext] at hgrain
  have hne : (k + 1) * Nat.pow 2 s ≠ v := by
    rintro rfl
    rw [leadingBits_mul_pow hk' hs'] at hveven
    omega
  refine ⟨(k + 1) * Nat.pow 2 s, ⟨?_, grain_dvd_mul (Nat.le_of_lt hk')⟩, by omega, by omega⟩
  exact Nat.lt_of_le_of_lt hle hv.1

/-- What lies between two numbers that are equally near is nearer than both. -/
theorem abs_sub_lt_of_between {x y z : ℚ} (h : |q - x| = |q - y|) (hxz : x < z) (hzy : z < y) :
    |q - z| < |q - x| := by
  rcases abs_eq_abs.1 h with heq | heq
  · linarith
  · have hx : |q - x| = q - x := abs_of_pos (by linarith)
    rw [hx, abs_lt]
    constructor <;> linarith

/-- Greater magnitudes are greater numbers, and less with a minus. -/
theorem toRat_lt_toRat (hu : Representable u) (hv : Representable v) (h : u < v) :
    (finite false u hu).toRat < (finite false v hv).toRat ∧
      (finite true v hv).toRat < (finite true u hu).toRat := by
  have hone : (0 : ℚ) < unitsPerOne := Nat.cast_pos.2 unitsPerOne_pos
  have hlt : (u : ℚ) < v := Nat.cast_lt.2 h
  simp only [toRat_finite, signed, div_lt_div_iff_of_pos_right hone]
  constructor
  · simpa using hlt
  · simpa using hlt

/-- A value and a greater one are not both nearest: both would have even significands, and one
    between them would be nearer. -/
theorem IsNearest.not_lt {hu : Representable u} {hv : Representable v}
    (h : (finite a u hu).IsNearest q) (h' : (finite a v hv).IsNearest q) : ¬u < v := by
  intro hlt
  -- The two are equally near, so the rule for ties holds of both significands.
  have hdistance : |q - (finite a u hu).toRat| = |q - (finite a v hv).toRat| :=
    le_antisymm (h.le _ rfl) (h'.le _ rfl)
  have hne : (finite a u hu).toRat ≠ (finite a v hv).toRat := by
    obtain ⟨hup, hdown⟩ := toRat_lt_toRat hu hv hlt
    cases a with
    | false => exact ne_of_lt hup
    | true => exact ne_of_gt hdown
  obtain ⟨m, hm, hum, hmv⟩ := exists_between hu hv hlt (h.even _ rfl hne.symm hdistance.symm)
    (h'.even _ rfl hne hdistance)
  obtain ⟨hup, hdown⟩ := toRat_lt_toRat hu hm hum
  obtain ⟨hup', hdown'⟩ := toRat_lt_toRat hm hv hmv
  cases a with
  | false => exact not_lt_of_ge (h.le _ rfl) (abs_sub_lt_of_between hdistance hup hup')
  | true => exact not_lt_of_ge (h'.le _ rfl) (abs_sub_lt_of_between hdistance.symm hdown' hdown)

/-- Only one value with a given sign is nearest to a number. -/
theorem IsNearest.unique {v w : Binary64} (hv : v.IsNearest q) (hw : w.IsNearest q)
    (hsign : v.hasMinus = w.hasMinus) : v = w := by
  cases v with
  | nan | infinite => cases hv.isFinite
  | finite a u hu =>
    cases w with
    | nan | infinite => cases hw.isFinite
    | finite b u' hu' =>
      obtain rfl : a = b := hsign
      obtain rfl : u = u' := Nat.le_antisymm (Nat.le_of_not_lt (hw.not_lt hv))
        (Nat.le_of_not_lt (hv.not_lt hw))
      rfl

end Fish.Binary64
