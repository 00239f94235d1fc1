import Fish.Binary64.Bits
import Fish.Proofs.Rounding
import Fish.Proofs.Steps

/-!
# Remainders

The remainder takes a multiple of the divisor away from the dividend, the one by the floored
quotient, and it rounds after the quotient, the product and the difference. Numbers that are whole
on a common grid, with at most 53 bits, have the exact remainder if the format has the multiple.
Other numbers may not: a quotient that is rounded up to a whole number takes too much away, and the
remainder is then on the wrong side of zero. `isRemainderFor_mod_iff` tells when it is not.

Main lemmas:

* `Binary64.mod_finite`               the remainder of numbers on a common grid is exact
* `Binary64.mod_of_lt`                so is that of a dividend below the divisor
* `Binary64.isRemainderFor_mod_iff`   when the remainder is on the divisor's side and less
* `Machine.step_remainder`            what a step over the remainder pushes
-/

namespace Fish

namespace Binary64

/-! ## Floored division of magnitudes -/

/-- The magnitude of the floored quotient of two numbers, from their magnitudes. Between numbers of
    opposite signs the quotient is not positive, so its floor is the next one away from zero. -/
def flooredQuotient (opposite : Bool) (i j : Nat) : Nat :=
  i / j + if opposite && i % j ≠ 0 then 1 else 0

/-- The magnitude of the remainder that goes with the floored quotient. -/
def flooredRemainder (opposite : Bool) (i j : Nat) : Nat :=
  if opposite && i % j ≠ 0 then j - i % j else i % j

/-- The floored quotient is greater than the dividend by one at most. -/
theorem flooredQuotient_le (opposite : Bool) (i j : Nat) :
    flooredQuotient opposite i j ≤ i + 1 := by
  have hle : i / j ≤ i := Nat.div_le_self i j
  unfold flooredQuotient
  split <;> omega

/-- The remainder is less than the divisor. -/
theorem flooredRemainder_lt (opposite : Bool) (i : Nat) {j : Nat} (h : 0 < j) :
    flooredRemainder opposite i j < j := by
  have hless : i % j < j := Nat.mod_lt i h
  unfold flooredRemainder
  split
  · rename_i hrest
    simp only [Bool.and_eq_true, decide_eq_true_eq] at hrest
    omega
  · exact hless

/-- Numbers of the same sign: the multiple of the divisor is below the dividend. -/
theorem mul_flooredQuotient_false (i j : Nat) :
    j * flooredQuotient false i j + flooredRemainder false i j = i := by
  simpa [flooredQuotient, flooredRemainder] using Nat.div_add_mod i j

/-- Numbers of opposite signs: the multiple of the divisor is beyond the dividend. -/
theorem mul_flooredQuotient_true (i : Nat) {j : Nat} (h : 0 < j) :
    j * flooredQuotient true i j = i + flooredRemainder true i j := by
  have hsplit : j * (i / j) + i % j = i := Nat.div_add_mod i j
  have hless : i % j < j := Nat.mod_lt i h
  simp only [flooredQuotient, flooredRemainder, Bool.true_and, Nat.mul_add]
  -- Without a rest the quotient is the truncated one, and otherwise the next.
  by_cases hrest : i % j = 0
  · simp [hrest] at hsplit ⊢
    omega
  · simp [hrest]
    omega

/-- The multiple of the divisor is less than one divisor beyond the dividend. -/
theorem mul_flooredQuotient_le (opposite : Bool) (i : Nat) {j : Nat} (h : 0 < j) :
    j * flooredQuotient opposite i j ≤ i + j := by
  cases opposite with
  | false =>
    have hlike := mul_flooredQuotient_false i j
    omega
  | true =>
    have hopposite := mul_flooredQuotient_true i h
    have hless := flooredRemainder_lt true i h
    omega

/-- The sign of a product with the quotient is that of the dividend. -/
theorem signed_xor_mul (a b : Bool) (j q : Nat) :
    signed b j * signed (a ^^ b) q = signed a (j * q) := by
  cases a <;> cases b <;>
    simp only [signed, Bool.xor_self, Bool.xor_false, Bool.xor_true, Bool.not_false,
      Bool.false_eq_true, if_true, if_false, Int.natCast_mul, Int.neg_mul, Int.mul_neg,
      Int.neg_neg]

/-- The dividend is a multiple of the divisor and the remainder. -/
theorem signed_eq_mul_add (a b : Bool) (i : Nat) {j : Nat} (h : 0 < j) :
    signed a i = signed b j * signed (a ^^ b) (flooredQuotient (a ^^ b) i j) +
      signed b (flooredRemainder (a ^^ b) i j) := by
  have hlike := mul_flooredQuotient_false i j
  have hopposite := mul_flooredQuotient_true i h
  -- Two of the four combinations of signs are alike, and the other two opposite.
  rw [signed_xor_mul]
  cases a <;> cases b <;> simp only [signed, Bool.xor_false, Bool.xor_true, Bool.not_false,
    Bool.not_true] at * <;> simp <;> omega

/-- The divisor's sign times that of the quotient is the dividend's. -/
theorem xor_quotient_sign (a b : Bool) : (b ^^ (a ^^ b)) = a := by
  cases a <;> cases b <;> rfl

/-! ## Exact operations -/

/-- A quotient is what it is rounded to, if the format has that. -/
theorem div_finite {a b : Bool} {u v q : Nat} {hu : Representable u} {hv : Representable v}
    (hpos : 0 < v) (hround : roundUnits (u * unitsPerOne) v = q) (hq : Representable q) :
    (finite a u hu).div (finite b v hv) = finite (a ^^ b) q hq := by
  simp only [div, Nat.ne_of_gt hpos, if_false]
  exact ofRatio_of_roundUnits (a ^^ b) hround hq

/-- A product with a whole number is exact if the format has it. -/
theorem mul_whole {b s : Bool} {v w : Nat} {hv : Representable v}
    {hw : Representable (w * unitsPerOne)} (h : Representable (v * w)) :
    (finite b v hv).mul (finite s (w * unitsPerOne) hw) = finite (b ^^ s) (v * w) h := by
  have hscale := roundUnits_scale (v * w) 1 unitsPerOne_pos
  rw [Nat.one_mul, Nat.mul_assoc, roundUnits_eq_self h.2] at hscale
  exact ofRatio_of_roundUnits (b ^^ s) hscale h

/-- A difference is exact if the format has it, and then its sign is that of a number: a zero has
    none. -/
theorem sub_finite {a c : Bool} {u p d : Nat} {hu : Representable u} {hp : Representable p}
    (hsub : signed a u = signed a p + signed c d) (h : Representable d) :
    (finite a u hu).sub (finite a p hp) = finite (c && d ≠ 0) d h := by
  -- The sum of the dividend and the negated multiple, as a whole number of units.
  have hsum : signed a u + signed (!a) p = signed c d := by
    cases a <;> simp [signed] at hsub ⊢ <;> omega
  have habs : (signed c d).natAbs = d := by cases c <;> simp [signed]
  have hsign : (if signed c d = 0 then a && !a else decide (signed c d < 0)) = (c && d ≠ 0) := by
    cases a <;> cases c <;> simp [signed] <;> omega
  simp only [sub, neg, add, hsum, habs, hsign]
  exact ofRatio_units _ h

/-- A floor is exact if the format has it. -/
theorem floor_finite {a : Bool} {u w : Nat} {hu : Representable u}
    (hwhole : flooredQuotient a u unitsPerOne = w) (h : Representable (w * unitsPerOne)) :
    (finite a u hu).floor = finite a (w * unitsPerOne) h := by
  show ofRatio a (flooredQuotient a u unitsPerOne * unitsPerOne) 1 = _
  rw [hwhole]
  exact ofRatio_units a h

/-- The floored quotient is that of the magnitudes, although it is taken after rounding. -/
theorem floor_div_finite {a b : Bool} {i j grain : Nat} {hu : Representable (i * grain)}
    {hv : Representable (j * grain)} (hgrain : 0 < grain) (hi : i < Nat.pow 2 53) (hj : 0 < j)
    (hj53 : j ≤ Nat.pow 2 53) :
    ((finite a (i * grain) hu).div (finite b (j * grain) hv)).floor =
      finite (a ^^ b) (flooredQuotient (a ^^ b) i j * unitsPerOne)
        (representable_whole (Nat.le_trans (flooredQuotient_le ..) hi)) := by
  have hround : roundUnits (i * grain * unitsPerOne) (j * grain) =
      roundUnits (i * unitsPerOne) j := by
    rw [Nat.mul_right_comm, roundUnits_scale _ _ hgrain]
  -- Rounding keeps the whole part of such a quotient, and whether it has a rest.
  obtain ⟨hdiv, hmod⟩ := roundUnits_quotient hi hj hj53
  have hq : Representable (roundUnits (i * unitsPerOne) j) := by
    refine ⟨?_, grain_dvd_roundUnits ..⟩
    have hlimit : Nat.pow 2 53 * unitsPerOne < unitsLimit := by decide +kernel
    refine Nat.lt_trans ((Nat.div_lt_iff_lt_mul unitsPerOne_pos).1 ?_) hlimit
    rw [hdiv]
    exact Nat.lt_of_le_of_lt (Nat.div_le_self ..) hi
  rw [div_finite (Nat.mul_pos hj hgrain) hround hq]
  -- The floor looks at the whole part and at whether there is a rest, and rounding keeps both.
  refine floor_finite ?_ _
  simp only [flooredQuotient, hdiv, ne_eq, hmod]

/-- Of numbers of at most 53 bits on a common grid the remainder is exact, if the format has the
    multiple of the divisor that is taken away. -/
theorem mod_finite {a b : Bool} {i j grain : Nat} (hu : Representable (i * grain))
    (hv : Representable (j * grain)) (hgrain : ∃ e, grain = Nat.pow 2 e) (hi : i < Nat.pow 2 53)
    (hj : 0 < j) (hj53 : j ≤ Nat.pow 2 53)
    (hp : Representable (j * grain * flooredQuotient (a ^^ b) i j)) :
    ∃ hr, (finite a (i * grain) hu).mod (finite b (j * grain) hv) =
      finite (b && flooredRemainder (a ^^ b) i j * grain ≠ 0)
        (flooredRemainder (a ^^ b) i j * grain) hr := by
  have hless := flooredRemainder_lt (a ^^ b) i hj
  have hpos : 0 < grain := by
    obtain ⟨e, rfl⟩ := hgrain
    exact Nat.two_pow_pos e
  -- The remainder is on the grid of the divisor, and less than it.
  have hr : Representable (flooredRemainder (a ^^ b) i j * grain) := by
    refine ⟨Nat.lt_trans (Nat.mul_lt_mul_of_pos_right hless hpos) hv.1, ?_⟩
    obtain ⟨e, rfl⟩ := hgrain
    exact grain_dvd_mul (by omega)
  refine ⟨hr, ?_⟩
  rw [mod, floor_div_finite hpos hi hj hj53, mul_whole hp]
  simp only [xor_quotient_sign]
  refine sub_finite ?_ hr
  -- The dividend is the multiple and the remainder, on the grid as in whole numbers.
  calc signed a (i * grain)
      = signed a i * grain := signed_mul ..
    _ = (signed a (j * flooredQuotient (a ^^ b) i j) +
          signed b (flooredRemainder (a ^^ b) i j)) * grain := by
        rw [← signed_xor_mul a b, ← signed_eq_mul_add a b i hj]
    _ = signed a (j * grain * flooredQuotient (a ^^ b) i j) +
          signed b (flooredRemainder (a ^^ b) i j * grain) := by
        rw [Int.add_mul, ← signed_mul, ← signed_mul, Nat.mul_right_comm]

/-- A dividend below the divisor, and of its sign, is itself the remainder. -/
theorem mod_of_lt {a : Bool} {u v : Nat} {hu : Representable u} {hv : Representable v}
    (h : u < v) : (finite a u hu).mod (finite a v hv) = finite (a && u ≠ 0) u hu := by
  have hless := roundUnits_lt_one hu hv h
  have hlimit : unitsPerOne < unitsLimit := by decide +kernel
  have hq : Representable (roundUnits (u * unitsPerOne) v) :=
    ⟨Nat.lt_trans hless hlimit, grain_dvd_roundUnits ..⟩
  have hzero : Representable (0 * unitsPerOne) := representable_whole (Nat.zero_le _)
  -- The quotient of numbers of the same sign is not negative, and below one its floor is zero.
  have hfloor : (finite (a ^^ a) (roundUnits (u * unitsPerOne) v) hq).floor =
      finite (a ^^ a) (0 * unitsPerOne) hzero := by
    refine floor_finite ?_ hzero
    rw [Bool.xor_self, flooredQuotient, Nat.div_eq_of_lt hless]
    simp
  have hproduct : Representable (v * 0) := by
    rw [Nat.mul_zero]
    decide +kernel
  -- With a quotient of zero the multiple is zero, and nothing is taken away.
  rw [mod, div_finite (Nat.zero_lt_of_lt h) rfl hq, hfloor, mul_whole hproduct]
  simp only [Bool.xor_self, Bool.xor_false]
  refine sub_finite ?_ hu
  cases a <;> simp [signed]

/-! ## When a remainder is one -/

/-- The number of units of a finite value, without its sign. -/
def magnitude : Binary64 → Nat
  | finite _ units _ => units
  | _ => 0

/-- The value is a remainder for the divisor: it is finite and smaller in magnitude, and zero or of
    the same sign. -/
def IsRemainderFor (r x : Binary64) : Prop :=
  r.isFinite = true ∧ r.magnitude < x.magnitude ∧
    (r.isZero = true ∨ r.isBelowZero = x.isBelowZero)

instance (r x : Binary64) : Decidable (r.IsRemainderFor x) :=
  inferInstanceAs (Decidable (_ ∧ _))

/-- For finite values this is about their units and signs. -/
theorem isRemainderFor_finite {c b : Bool} {n v : Nat} {hn : Representable n}
    {hv : Representable v} :
    (finite c n hn).IsRemainderFor (finite b v hv) ↔ n < v ∧ (n = 0 ∨ c = b) := by
  simp only [IsRemainderFor, isFinite, magnitude, isZero, isBelowZero, decide_eq_true_eq, true_and]
  refine and_congr_right fun hless => ?_
  have hpos : v ≠ 0 := Nat.ne_of_gt (Nat.zero_lt_of_lt hless)
  by_cases hzero : n = 0
  · simp [hzero]
  · simp [hzero, hpos]

/-- A value that has the divisor's sign, zero excepted, only has to be smaller. -/
theorem isRemainderFor_signed {b : Bool} {n v : Nat} {hn : Representable n} {hv : Representable v} :
    (finite (b && n ≠ 0) n hn).IsRemainderFor (finite b v hv) ↔ n < v := by
  rw [isRemainderFor_finite]
  refine and_iff_left ?_
  by_cases hzero : n = 0
  · exact .inl hzero
  · exact .inr (by simp [hzero])

/-- The multiple of the divisor that a remainder takes away from the dividend. -/
def multiple (y x : Binary64) : Binary64 := x.mul (y.div x).floor

/-- The multiple has the sign of the dividend, also if it is too great for the format. -/
theorem multiple_cases {a b : Bool} {u v : Nat} (hu : Representable u) (hv : Representable v)
    (hpos : 0 < v) :
    (∃ p hp, (finite a u hu).multiple (finite b v hv) = finite a p hp) ∨
      (finite a u hu).multiple (finite b v hv) = infinite a := by
  have hinfinite : (finite b v hv).mul (infinite (a ^^ b)) = infinite a := by
    simp only [mul, Nat.ne_of_gt hpos, if_false, xor_quotient_sign]
  have hquotient : (finite a u hu).div (finite b v hv) = ofRatio (a ^^ b) (u * unitsPerOne) v := by
    simp only [div, Nat.ne_of_gt hpos, if_false]
  rw [multiple, hquotient]
  -- The quotient, its floor and the product may each be too great; then the multiple is infinite,
  -- and its sign is that of the dividend in any case.
  rcases ofRatio_cases (a ^^ b) (u * unitsPerOne) v with ⟨hq, hdiv⟩ | hdiv
  · rw [hdiv]
    simp only [floor]
    rcases ofRatio_cases (a ^^ b) _ 1 with ⟨hw, hfloor⟩ | hfloor
    · rw [hfloor]
      simp only [mul, xor_quotient_sign]
      rcases ofRatio_cases a _ unitsPerOne with ⟨hp, hmul⟩ | hmul
      · exact .inl ⟨_, hp, hmul⟩
      · exact .inr hmul
    · rw [hfloor]
      exact .inr hinfinite
  · rw [hdiv]
    exact .inr hinfinite

/-- A difference of numbers of the same sign has the sign of the one that is greater in
    magnitude. -/
theorem sub_same_sign {a : Bool} {u p : Nat} {hu : Representable u} {hp : Representable p} :
    (finite a u hu).sub (finite a p hp) =
      ofRatio (if u = p then false else a ^^ u < p) ((u - p) + (p - u)) 1 := by
  have hunits : (signed a u + signed (!a) p).natAbs = (u - p) + (p - u) := by
    cases a <;> simp [signed] <;> omega
  have hsign : (if signed a u + signed (!a) p = 0 then a && !a
      else decide (signed a u + signed (!a) p < 0)) = if u = p then false else a ^^ u < p := by
    rw [Bool.eq_iff_iff]
    cases a <;> simp [signed] <;> omega
  simp only [sub, neg, add, hunits, hsign]

/-- So it is for a value that is rounded first, and one that is rounded to infinity is no remainder.
    -/
theorem isRemainderFor_ofRatio {negative b : Bool} {d v : Nat} {hv : Representable v} :
    (ofRatio negative d 1).IsRemainderFor (finite b v hv) ↔
      roundUnits d 1 < v ∧ (d = 0 ∨ negative = b) := by
  rcases ofRatio_cases negative d 1 with ⟨h, hfinite⟩ | hinfinite
  · rw [hfinite, isRemainderFor_finite, roundUnits_eq_zero_iff]
  · -- What is rounded to infinity is greater than every divisor.
    have hbeyond : ¬roundUnits d 1 < v := by
      intro hless
      rw [ofRatio, dif_pos (Nat.lt_trans hless hv.1)] at hinfinite
      cases hinfinite
    simp [hinfinite, IsRemainderFor, isFinite, hbeyond]

/-- When a remainder is one for its divisor: the multiple that is taken away is in the format, it
    does not pass the dividend on the wrong side, and it misses it by less than the divisor, also
    after rounding. -/
theorem isRemainderFor_mod_iff {a b : Bool} {u v : Nat} {hu : Representable u}
    {hv : Representable v} (hpos : 0 < v) :
    ((finite a u hu).mod (finite b v hv)).IsRemainderFor (finite b v hv) ↔
      ∃ p hp, (finite a u hu).multiple (finite b v hv) = finite a p hp ∧
        (if a = b then p ≤ u else u ≤ p) ∧ roundUnits ((u - p) + (p - u)) 1 < v := by
  have hmod : (finite a u hu).mod (finite b v hv) =
      (finite a u hu).sub ((finite a u hu).multiple (finite b v hv)) := rfl
  rw [hmod]
  -- A multiple in the format leaves a difference of numbers of one sign, whose sign tells which of
  -- the two is greater.
  rcases multiple_cases hu hv hpos with ⟨p, hp, hmultiple⟩ | hmultiple
  · rw [hmultiple, sub_same_sign, isRemainderFor_ofRatio]
    have hside : ((u - p) + (p - u) = 0 ∨ (if u = p then false else a ^^ u < p) = b) ↔
        if a = b then p ≤ u else u ≤ p := by
      cases a <;> cases b <;> simp <;> omega
    rw [hside, and_comm]
    constructor
    · intro h
      exact ⟨p, hp, rfl, h⟩
    · rintro ⟨p, hp, h, hlaw⟩
      cases h
      exact hlaw
  · -- An infinite multiple leaves nothing finite.
    rw [hmultiple]
    constructor
    · intro h
      exact Bool.noConfusion h.1
    · rintro ⟨p, hp, h, -⟩
      cases h

/-- An exact remainder is on the side of the divisor. -/
theorem isRemainderFor_mod_of_grid {a b : Bool} {i j grain : Nat}
    (hu : Representable (i * grain)) (hv : Representable (j * grain))
    (hgrain : ∃ e, grain = Nat.pow 2 e) (hi : i < Nat.pow 2 53) (hj : 0 < j)
    (hj53 : j ≤ Nat.pow 2 53) (hp : Representable (j * grain * flooredQuotient (a ^^ b) i j)) :
    ((finite a (i * grain) hu).mod (finite b (j * grain) hv)).IsRemainderFor
      (finite b (j * grain) hv) := by
  obtain ⟨hr, hmod⟩ := mod_finite hu hv hgrain hi hj hj53 hp
  have hpos : 0 < grain := by
    obtain ⟨e, rfl⟩ := hgrain
    exact Nat.two_pow_pos e
  rw [hmod, isRemainderFor_signed]
  exact Nat.mul_lt_mul_of_pos_right (flooredRemainder_lt (a ^^ b) i hj) hpos

/-- A dividend below the divisor, and of its sign, is a remainder for it. -/
theorem isRemainderFor_mod_of_lt {a : Bool} {u v : Nat} {hu : Representable u}
    {hv : Representable v} (h : u < v) :
    ((finite a u hu).mod (finite a v hv)).IsRemainderFor (finite a v hv) := by
  rw [mod_of_lt h, isRemainderFor_signed]
  exact h

end Binary64

/-- A divisor that is not zero has a remainder for every dividend. -/
theorem Operator.apply_mod {x : Binary64} (y : Binary64) (h : x.isZero = false) :
    Operator.mod.apply y x = .ok (y.mod x) := by
  simp only [apply, h, Bool.false_eq_true, if_false]

namespace Machine

open Binary64

variable {m : Machine} {cell : Cell} {rest : List Binary64}

/-- A step over an operator that has a result for the two values on top. -/
theorem step_of_operator {op : Operator} {x y value : Binary64} (hrun : m.status = .running)
    (hc : m.cell? = some cell) (hquote : m.quoting = false)
    (hi : cell.instruction = .operator op) (hvalues : m.stack.values = x :: y :: rest)
    (happly : op.apply y x = .ok value) :
    m.step = .ok .running ((m.counted.withValues (value :: rest)).move .advance) := by
  have hobey : obey cell m.counted = .ok .advance (m.counted.withValues (value :: rest)) := by
    simp only [obey, hi, thenAdvance_apply, Tower.operate, onStack_apply, Stack.operate,
      stack_counted, hvalues, happly]
    rfl
  -- The operator keeps the machine running, and so does the move.
  have hstep := step_of_ok hrun ((executeNext_of_obeying hc (.inl hquote)).trans hobey)
  have hstatus : (m.counted.withValues (value :: rest)).status = .running := hrun
  rwa [status_move, hstatus] at hstep

/-- A step over the remainder of finite numbers, the divisor not zero, does not fault and pushes
    the remainder as it is rounded. That is less than the divisor in magnitude, and zero or of its
    sign, exactly if the multiple that is taken away is in the format, does not pass the dividend,
    and misses it by less than the divisor, also after rounding. So it is if the dividend is of the
    divisor's sign and less, and if both are whole on a common grid, with at most 53 bits there, and
    the format has the exact multiple. -/
theorem step_remainder {a b : Bool} {u v : Nat} {hu : Representable u} {hv : Representable v}
    (hrun : m.status = .running) (hc : m.cell? = some cell) (hquote : m.quoting = false)
    (hi : cell.instruction = .operator .mod)
    (hvalues : m.stack.values = .finite b v hv :: .finite a u hu :: rest) (hpos : 0 < v) :
    let y := Binary64.finite a u hu
    let x := Binary64.finite b v hv
    m.step = .ok .running ((m.counted.withValues (y.mod x :: rest)).move .advance) ∧
      ((y.mod x).IsRemainderFor x ↔
        ∃ p hp, y.multiple x = .finite a p hp ∧ (if a = b then p ≤ u else u ≤ p) ∧
          roundUnits ((u - p) + (p - u)) 1 < v) ∧
      (a = b → u < v → (y.mod x).IsRemainderFor x) ∧
      ∀ i j e, u = i * Nat.pow 2 e → v = j * Nat.pow 2 e → i < Nat.pow 2 53 →
        j ≤ Nat.pow 2 53 → Representable (v * flooredQuotient (a ^^ b) i j) →
        (y.mod x).IsRemainderFor x := by
  intro y x
  have hnonzero : x.isZero = false := decide_eq_false (Nat.ne_of_gt hpos)
  have happly := Operator.apply_mod y hnonzero
  refine ⟨step_of_operator hrun hc hquote hi hvalues happly, isRemainderFor_mod_iff hpos, ?_, ?_⟩
  · rintro rfl hless
    exact isRemainderFor_mod_of_lt hless
  · rintro i j e rfl rfl hi53 hj53 hp
    exact isRemainderFor_mod_of_grid hu hv ⟨e, rfl⟩ hi53 (Nat.pos_of_mul_pos_right hpos) hj53 hp

/-- The remainder of minus seven and a half by two: both are whole numbers of halves. -/
theorem step_remainder_of_halves :
    ∃ (hu : Representable (15 * Nat.pow 2 1073)) (hv : Representable (4 * Nat.pow 2 1073)),
      let y := Binary64.finite true (15 * Nat.pow 2 1073) hu
      let x := Binary64.finite false (4 * Nat.pow 2 1073) hv
      let m := start (.ofRows [[.ofChar '%']]) [y, x] 0 {} {}
      m.status = .running ∧ m.cell? = some (.ofChar '%') ∧ m.quoting = false ∧
        m.stack.values = [x, y] ∧ 0 < 4 * Nat.pow 2 1073 ∧
        m.step = .ok .running ((m.counted.withValues [y.mod x]).move .advance) ∧
        (y.mod x).IsRemainderFor x := by
  have hu : Representable (15 * Nat.pow 2 1073) := by decide +kernel
  have hv : Representable (4 * Nat.pow 2 1073) := by decide +kernel
  refine ⟨hu, hv, ?_⟩
  intro y x m
  have hcell : m.cell? = some (.ofChar '%') := rfl
  have hvalues : m.stack.values = [x, y] := rfl
  have hpos : 0 < 4 * Nat.pow 2 1073 := by decide +kernel
  have hmultiple : Representable (4 * Nat.pow 2 1073 * flooredQuotient (true ^^ false) 15 4) := by
    decide +kernel
  obtain ⟨hstep, -, -, hgrid⟩ := step_remainder (m := m) rfl hcell rfl rfl hvalues hpos
  exact ⟨rfl, hcell, rfl, hvalues, hpos, hstep,
    hgrid 15 4 1073 rfl rfl (by decide) (by decide) hmultiple⟩

/-- The remainder of 0.35 by 0.01, which is below zero: the quotient, a little less than 35, is
    rounded up to it. -/
theorem step_remainder_of_rounded_quotient :
    let y := Binary64.ofBits 0x3fd6666666666666
    let x := Binary64.ofBits 0x3f847ae147ae147b
    let m := start (.ofRows [[.ofChar '%']]) [y, x] 0 {} {}
    y.isFinite = true ∧ x.isFinite = true ∧ x.isZero = false ∧
      m.step = .ok .running ((m.counted.withValues [y.mod x]).move .advance) ∧
      (y.mod x).isBelowZero = true ∧ x.isBelowZero = false ∧ ¬(y.mod x).IsRemainderFor x := by
  intro y x m
  have hnonzero : x.isZero = false := by decide +kernel
  have happly := Operator.apply_mod y hnonzero
  have hcell : m.cell? = some (.ofChar '%') := by decide
  exact ⟨by decide +kernel, by decide +kernel, hnonzero,
    step_of_operator rfl hcell rfl rfl rfl happly, by decide +kernel, by decide +kernel,
    by decide +kernel⟩

end Machine

end Fish
