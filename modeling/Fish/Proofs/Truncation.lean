import Fish.Binary64.Bits
import Fish.Proofs.OutputTrace
import Fish.Proofs.Rounding

/-!
# Operands that are used as whole numbers

A count, a code point and a coordinate are whole numbers, but the values on the stack need not be.
Their fractions are dropped, so a step does not tell such an operand from its truncation. There is
one exception: a count or code point between minus one and zero is refused, because it is found to
be below zero before the fraction is dropped. Its truncation is a negative zero, which is not below
zero and is accepted.

Main lemmas:

* `Binary64.trunc_finite`             a truncation has the whole part of its value
* `Binary64.toCoordinate_trunc`       coordinates do not depend on the fraction
* `Stack.countWithin_trunc`           counts do not, unless they are between minus one and zero
* `Binary64.toChar_trunc`             nor do code points
* `Machine.step_truncated_eq_iff`     when a step does not depend on the fraction of an operand
-/

namespace Fish

namespace Binary64

/-! ## Truncation -/

/-- The value without its fraction; the sign stays, also that of a zero. -/
def trunc : Binary64 → Binary64
  | finite negative units _ => ofRatio negative (units / unitsPerOne * unitsPerOne) 1
  | value => value

/-- The value lies between minus one and zero, and is neither. -/
def isNegativeFraction : Binary64 → Bool
  | finite negative units _ => negative && units ≠ 0 && units < unitsPerOne
  | _ => false

/-- A value with more than 53 bits before the point has no fraction. -/
theorem unitsPerOne_dvd {units : Nat} (h : Representable units)
    (hmany : Nat.pow 2 53 ≤ units / unitsPerOne) : unitsPerOne ∣ units := by
  have hunits : Nat.pow 2 53 * unitsPerOne ≤ units := Nat.mul_le_of_le_div _ _ _ hmany
  refine Nat.dvd_trans ?_ h.2
  -- The last one of the 53 leading bits is worth at least one.
  obtain ⟨e, he⟩ := ones_eq_pow
  rw [he] at hunits ⊢
  show 2 ^ e ∣ 2 ^ (units.log2 - 52)
  have hpow : 2 ^ (53 + e) ≤ units := by
    rw [Nat.pow_add]
    exact hunits
  have hpos : 0 < units := Nat.lt_of_lt_of_le (Nat.two_pow_pos _) hpow
  have hlog : 53 + e ≤ units.log2 := (Nat.le_log2 (Nat.ne_of_gt hpos)).2 hpow
  exact Nat.pow_dvd_pow 2 (by omega)

/-- The format has the whole part of each of its values. -/
theorem representable_trunc {units : Nat} (h : Representable units) :
    Representable (units / unitsPerOne * unitsPerOne) := by
  by_cases hfew : units / unitsPerOne ≤ Nat.pow 2 53
  · exact representable_whole hfew
  · rw [Nat.div_mul_cancel (unitsPerOne_dvd h (Nat.le_of_not_le hfew))]
    exact h

/-- A truncation has the whole part of its value. -/
theorem trunc_finite {negative : Bool} {units : Nat} {h : Representable units} :
    (finite negative units h).trunc =
      finite negative (units / unitsPerOne * unitsPerOne) (representable_trunc h) :=
  ofRatio_units _ _

/-- A value and its truncation have the same whole part in every range. -/
theorem toIntWithin_trunc (least greatest : Int) (value : Binary64) :
    value.trunc.toIntWithin least greatest = value.toIntWithin least greatest := by
  cases value with
  | nan => rfl
  | infinite negative => rfl
  | finite negative units h =>
    rw [trunc_finite]
    simp only [toIntWithin, Nat.mul_div_cancel _ unitsPerOne_pos]

/-- Coordinates do not depend on the fraction. -/
@[simp] theorem toCoordinate_trunc (value : Binary64) :
    value.trunc.toCoordinate = value.toCoordinate :=
  toIntWithin_trunc ..

/-- A truncation is below zero if its value is, unless nothing is left of it. -/
theorem isBelowZero_trunc (value : Binary64) :
    value.trunc.isBelowZero = (value.isBelowZero && !value.isNegativeFraction) := by
  cases value with
  | nan => rfl
  | infinite negative => cases negative <;> rfl
  | finite negative units h =>
    have hpos : unitsPerOne ≠ 0 := Nat.ne_of_gt unitsPerOne_pos
    have hwhole : units / unitsPerOne * unitsPerOne = 0 ↔ units < unitsPerOne := by
      rw [Nat.mul_eq_zero, Nat.div_eq_zero_iff]
      omega
    rw [trunc_finite]
    simp only [isBelowZero, isNegativeFraction, ne_eq, hwhole]
    -- A zero has no fraction, and nothing is left of a value below one.
    rw [Bool.eq_iff_iff]
    by_cases hzero : units = 0
    · simp [hzero, Nat.pos_of_ne_zero hpos]
    · cases negative <;> simp [hzero]

end Binary64

/-- A count does not depend on the fraction, unless it lies between minus one and zero. -/
theorem Stack.countWithin_trunc {count : Binary64} (h : count.isNegativeFraction = false)
    (available : Nat) : countWithin count.trunc available = countWithin count available := by
  -- A count is used by its sign and its whole part, and neither changes.
  have hsign := count.isBelowZero_trunc
  rw [h, Bool.not_false, Bool.and_true] at hsign
  cases count with
  | nan => rfl
  | infinite negative => rfl
  | finite negative units hunits =>
    rw [Binary64.trunc_finite] at hsign ⊢
    simp only [Binary64.isBelowZero] at hsign
    simp only [countWithin, hsign, Nat.mul_div_cancel _ Binary64.unitsPerOne_pos]

/-- A character does not depend on the fraction, unless the value lies between minus one and
    zero. -/
theorem Binary64.toChar_trunc {value : Binary64} (h : value.isNegativeFraction = false) :
    value.trunc.toChar = value.toChar := by
  have hsign := value.isBelowZero_trunc
  rw [h, Bool.not_false, Bool.and_true] at hsign
  cases value with
  | nan => rfl
  | infinite negative => rfl
  | finite negative units hunits =>
    rw [trunc_finite] at hsign ⊢
    simp only [isBelowZero] at hsign
    simp only [toChar, hsign, Nat.mul_div_cancel _ unitsPerOne_pos]

/-- A value between minus one and zero is truncated to the negative zero. -/
theorem Binary64.exists_trunc_eq_zero {value : Binary64} (h : value.isNegativeFraction = true) :
    value.isBelowZero = true ∧ ∃ hzero, value.trunc = finite true 0 hzero := by
  cases value with
  | nan => cases h
  | infinite negative => cases h
  | finite negative units hunits =>
    simp only [isNegativeFraction, Bool.and_eq_true, decide_eq_true_eq] at h
    obtain ⟨⟨rfl, hzero⟩, hless⟩ := h
    refine ⟨by simp [isBelowZero, hzero], ?_⟩
    -- A magnitude of less than one has no whole part.
    have hwhole : units / unitsPerOne * unitsPerOne = 0 := by
      rw [Nat.div_eq_of_lt hless, Nat.zero_mul]
    refine ⟨hwhole ▸ representable_trunc hunits, ?_⟩
    rw [trunc_finite, finite.injEq]
    exact ⟨rfl, hwhole⟩

/-- A count between minus one and zero cannot be served, but its truncation can. -/
theorem Stack.countWithin_of_isNegativeFraction {count : Binary64}
    (h : count.isNegativeFraction = true) (available : Nat) :
    countWithin count available = none ∧ countWithin count.trunc available = some 0 := by
  obtain ⟨hbelow, hzero, htrunc⟩ := Binary64.exists_trunc_eq_zero h
  refine ⟨countWithin_eq_none_iff.2 (.inl hbelow), ?_⟩
  rw [htrunc]
  simp [countWithin]

/-- A code point between minus one and zero has no character, but its truncation has. -/
theorem Binary64.toChar_of_isNegativeFraction {value : Binary64}
    (h : value.isNegativeFraction = true) :
    value.toChar = Text.replacementChar ∧ value.trunc.toChar = '\x00' := by
  obtain ⟨hbelow, hzero, htrunc⟩ := exists_trunc_eq_zero h
  constructor
  · cases value with
    | nan => cases h
    | infinite negative => cases h
    | finite negative units hunits =>
      simp only [isBelowZero] at hbelow
      simp only [toChar, hbelow, Bool.true_or, if_true]
  · rw [htrunc]
    simp only [toChar, Nat.zero_div]
    rfl

/-! ## Steps -/

/-- How many operands an instruction uses as whole numbers, from the top of the stack. -/
def Instruction.wholeOperands : Instruction → Nat
  | stack .openStack => 1
  | writeChar => 1
  | jump => 2
  | peek => 2
  | poke => 2
  | _ => 0

/-- Which instructions use an operand as a whole number: those with a point use two, the other two
    of them one. -/
theorem Instruction.of_lt_wholeOperands {i : Instruction} {k : Nat} (h : k < i.wholeOperands) :
    k < 2 ∧ (i = .jump ∨ i = .peek ∨ i = .poke) ∨
      k = 0 ∧ (i = .stack .openStack ∨ i = .writeChar) := by
  unfold wholeOperands at h
  split at h
  · exact .inr ⟨Nat.lt_one_iff.1 h, .inl rfl⟩
  · exact .inr ⟨Nat.lt_one_iff.1 h, .inr rfl⟩
  · exact .inl ⟨h, .inl rfl⟩
  · exact .inl ⟨h, .inr (.inl rfl)⟩
  · exact .inl ⟨h, .inr (.inr rfl)⟩
  · exact absurd h (Nat.not_lt_zero k)

namespace Machine

variable {m : Machine} {cell : Cell} {k : Nat}

/-- The machine with the fraction dropped from one of the values on the active stack, counted from
    the top. -/
def truncated (m : Machine) (k : Nat) : Machine :=
  m.withValues (m.stack.values.modify k Binary64.trunc)

/-- Truncating the top value of a stack. -/
theorem truncated_of_cons {count : Binary64} {rest : List Binary64}
    (h : m.stack.values = count :: rest) : m.truncated 0 = m.withValues (count.trunc :: rest) := by
  rw [truncated, h]
  rfl

/-- An empty stack has nothing to truncate. -/
theorem truncated_of_nil (h : m.stack.values = []) : m.truncated k = m := by
  rw [truncated, h, List.modify_nil]
  exact withValues_eq_self h

/-- A point does not depend on the fractions of its coordinates. -/
theorem popPoint_truncated (hk : k < 2) : popPoint (m.truncated k) = popPoint m := by
  have hvalues : (m.truncated k).stack.values = m.stack.values.modify k Binary64.trunc := rfl
  have hrest (rest : List Binary64) : (m.truncated k).withValues rest = m.withValues rest := rfl
  rw [popPoint_apply, popPoint_apply, hvalues]
  simp only [hrest]
  -- The first operand is the row of the point, the second its column.
  obtain rfl | rfl : k = 0 ∨ k = 1 := by omega
  · match m.stack.values with
    | [] => rfl
    | [_] => rfl
    | y :: x :: rest => simp only [List.modify_zero_cons, Binary64.toCoordinate_trunc]
  · match m.stack.values with
    | [] => rfl
    | [_] => rfl
    | y :: x :: rest =>
      simp only [List.modify_succ_cons, List.modify_zero_cons, Binary64.toCoordinate_trunc]

/-- Nor does an instruction that speaks of a point. -/
theorem obey_truncated_of_point (hk : k < 2)
    (hi : cell.instruction = .jump ∨ cell.instruction = .peek ∨ cell.instruction = .poke) :
    obey cell (m.truncated k) = obey cell m := by
  rcases hi with hi | hi | hi
  · simp only [obey, hi, jump, Action.bind_apply, popPoint_truncated hk]
  · simp only [obey, hi, thenAdvance_apply, peek, Action.bind_apply, popPoint_truncated hk]
  · simp only [obey, hi, thenAdvance_apply, poke, Action.bind_apply, popPoint_truncated hk]

variable {value : Binary64} {rest : List Binary64}

/-- Truncating an operand changes that value of the stack only. -/
theorem values_truncated (hvalues : m.stack.values = value :: rest) :
    (m.truncated 0).stack.values = value.trunc :: rest := by
  rw [truncated_of_cons hvalues]
  rfl

/-- A new stack for a count with a fraction is the one for its truncation. -/
theorem obey_truncated_of_openStack (hi : cell.instruction = .stack .openStack)
    (hvalues : m.stack.values = value :: rest) (h : value.isNegativeFraction = false) :
    obey cell (m.truncated 0) = obey cell m := by
  simp only [obey, hi, thenAdvance_apply, Tower.perform, openStack_apply, hvalues,
    values_truncated hvalues, Stack.countWithin_trunc h, Binary64.toIntWithin_trunc]
  rfl

/-- A character for a code point with a fraction is the one for its truncation. -/
theorem obey_truncated_of_writeChar (hi : cell.instruction = .writeChar)
    (hvalues : m.stack.values = value :: rest) (h : value.isNegativeFraction = false) :
    obey cell (m.truncated 0) = obey cell m := by
  simp only [obey, hi, thenAdvance_apply, writeChar_eq, popAndWrite_apply, hvalues,
    values_truncated hvalues, Binary64.toChar_trunc h]
  rfl

/-- A step does not tell an operand from its truncation if the instruction does not. -/
theorem step_truncated_of_obey (hrun : m.status = .running) (hc : m.cell? = some cell)
    (hq : m.quoting = false) (h : obey cell (m.counted.truncated k) = obey cell m.counted) :
    (m.truncated k).step = m.step := by
  have hrun' : (m.truncated k).status = .running := hrun
  have hc' : (m.truncated k).cell? = some cell := hc
  have hq' : (m.truncated k).quoting = false := hq
  have hnext : executeNext (m.truncated k) = executeNext m := by
    rw [executeNext_of_obeying hc (.inl hq), executeNext_of_obeying hc' (.inl hq')]
    exact h
  rw [step, step, hrun, hrun', hnext]

/-! ### Operands between minus one and zero -/

/-- A count between minus one and zero faults, and its truncation opens a stack. -/
theorem step_truncated_ne_of_openStack (hrun : m.status = .running) (hc : m.cell? = some cell)
    (hq : m.quoting = false) (hi : cell.instruction = .stack .openStack)
    (hvalues : m.stack.values = value :: rest) (h : value.isNegativeFraction = true) :
    (m.truncated 0).step ≠ m.step := by
  obtain ⟨hnone, hsome⟩ := Stack.countWithin_of_isNegativeFraction h rest.length
  have hcount := Stack.countWithin_eq_none_iff.1 hnone
  have hfault := step_error_of_faults hrun hc (.inl hq) (.noSuchCount hi hvalues hcount)
  have hobey : ∃ n, obey cell (m.truncated 0).counted = .ok .advance n := by
    have htop : (m.truncated 0).counted.stack.values = value.trunc :: rest :=
      values_truncated hvalues
    simp only [obey, hi, thenAdvance_apply, Tower.perform, openStack_apply, htop, hsome]
    exact ⟨_, rfl⟩
  obtain ⟨n, hn⟩ := hobey
  have hc' : (m.truncated 0).cell? = some cell := hc
  have hopen := step_of_ok (m := m.truncated 0) hrun
    ((executeNext_of_obeying hc' (.inl hq)).trans hn)
  -- One of the two steps is a fault and the other is none.
  rw [hfault, hopen]
  intro hsame
  cases hsame

/-- A code point between minus one and zero is written as another character than its truncation,
    unless there is no room for either. -/
theorem step_truncated_eq_of_writeChar_iff (hrun : m.status = .running)
    (hc : m.cell? = some cell) (hq : m.quoting = false) (hi : cell.instruction = .writeChar)
    (hvalues : m.stack.values = value :: rest) (h : value.isNegativeFraction = true) :
    (m.truncated 0).step = m.step ↔ m.output.hasRoom "\x00" = false := by
  obtain ⟨hplain, htrunc⟩ := Binary64.toChar_of_isNegativeFraction h
  have hc' : (m.truncated 0).cell? = some cell := hc
  have htop := values_truncated hvalues
  have htext : cell.instruction.written? value = some (String.singleton Text.replacementChar) := by
    rw [hi, ← hplain]
    rfl
  have htext' : cell.instruction.written? value.trunc = some "\x00" := by
    rw [hi, Instruction.written?, htrunc]
    rfl
  cases hnul : m.output.hasRoom "\x00" with
  | true =>
    -- The truncation is written, in one byte; the value itself needs three, or is refused.
    obtain ⟨n, hstep', houtput', -⟩ :=
      step_of_write (m := m.truncated 0) hrun hq hc' htop htext' hnul
    rw [hstep']
    refine iff_of_false (fun hsame => ?_) nofun
    cases hroom : m.output.hasRoom (String.singleton Text.replacementChar) with
    | true =>
      obtain ⟨n, hstep, houtput, -⟩ := step_of_write hrun hq hc hvalues htext hroom
      rw [hstep] at hsame
      cases hsame
      -- Both are written, and then the last characters differ.
      have htexts : m.output.text ++ "\x00" =
          m.output.text ++ String.singleton Text.replacementChar :=
        congrArg Output.text (houtput'.symm.trans houtput)
      have hchars := congrArg String.toList htexts
      rw [String.toList_append, String.toList_append] at hchars
      exact absurd (List.append_cancel_left hchars) (by decide)
    | false =>
      rw [step_of_refused hrun hq hc hvalues htext hroom] at hsame
      cases hsame
  | false =>
    -- There is no room for one byte, so there is none for three, and both are refused alike.
    have hroom : m.output.hasRoom (String.singleton Text.replacementChar) = false := by
      have hnulSize : "\x00".utf8ByteSize = 1 := by decide
      have hsize : (String.singleton Text.replacementChar).utf8ByteSize = 3 := by decide
      unfold Output.hasRoom at hnul ⊢
      rw [hnulSize] at hnul
      rw [hsize]
      split at hnul
      · cases hnul
      · simp only [decide_eq_false_iff_not] at hnul ⊢
        omega
    refine iff_of_true ?_ rfl
    rw [step_of_refused hrun hq hc hvalues htext hroom,
      step_of_refused (m := m.truncated 0) hrun hq hc' htop htext' hnul]
    rfl

/-- A step over an instruction that uses an operand as a whole number does the same if the fraction
    of the operand is dropped before. The only exception is a value between minus one and zero
    where a stack is opened, or where a character is written and there is room for one byte. -/
theorem step_truncated_eq_iff (hrun : m.status = .running) (hc : m.cell? = some cell)
    (hq : m.quoting = false) (hk : k < cell.instruction.wholeOperands) :
    (m.truncated k).step = m.step ↔
      ¬(m.stack.top?.any Binary64.isNegativeFraction = true ∧
        (cell.instruction = .stack .openStack ∨
          cell.instruction = .writeChar ∧ m.output.hasRoom "\x00" = true)) := by
  rcases Instruction.of_lt_wholeOperands hk with ⟨hk, hi⟩ | ⟨rfl, hi⟩
  · -- Coordinates are only ever brought into a range.
    refine iff_of_true (step_truncated_of_obey hrun hc hq (obey_truncated_of_point hk hi)) ?_
    rintro ⟨-, hother⟩
    rcases hi with hi | hi | hi <;> simp [hi] at hother
  · -- The operand is the top value; without one there is nothing to truncate.
    cases hvalues : m.stack.values with
    | nil =>
      have htop : m.stack.top?.any Binary64.isNegativeFraction = false := by
        rw [Stack.top?, hvalues]
        rfl
      refine iff_of_true (by rw [truncated_of_nil hvalues]) ?_
      simp [htop]
    | cons value rest =>
      have htop : m.stack.top?.any Binary64.isNegativeFraction = value.isNegativeFraction := by
        rw [Stack.top?, hvalues]
        rfl
      rw [htop]
      cases hfraction : value.isNegativeFraction with
      | false =>
        refine iff_of_true (step_truncated_of_obey hrun hc hq ?_) (by simp)
        rcases hi with hi | hi
        · exact obey_truncated_of_openStack hi hvalues hfraction
        · exact obey_truncated_of_writeChar hi hvalues hfraction
      | true =>
        rcases hi with hi | hi
        · refine iff_of_false ?_ (fun hnone => hnone ⟨rfl, .inl hi⟩)
          exact step_truncated_ne_of_openStack hrun hc hq hi hvalues hfraction
        · rw [step_truncated_eq_of_writeChar_iff hrun hc hq hi hvalues hfraction]
          simp [hi]

/-- A code point of 65.5 is that of a letter. -/
theorem step_truncated_of_letter :
    let m := start (.ofRows [[.ofChar 'o']]) [.ofBits 0x4050600000000000] 0 {} {}
    m.status = .running ∧ m.cell? = some (.ofChar 'o') ∧ m.quoting = false ∧
      0 < (Cell.ofChar 'o').instruction.wholeOperands ∧
      m.stack.top?.any Binary64.isNegativeFraction = false ∧ (m.truncated 0).step = m.step := by
  intro m
  have hcell : m.cell? = some (.ofChar 'o') := rfl
  have hk : 0 < (Cell.ofChar 'o').instruction.wholeOperands := by decide
  have htop : m.stack.top?.any Binary64.isNegativeFraction = false := by decide +kernel
  have hsame := (step_truncated_eq_iff (m := m) rfl hcell rfl hk).2 (by simp [htop])
  exact ⟨rfl, hcell, rfl, hk, htop, hsame⟩

/-- A code point of minus one half is refused, and its truncation is not. -/
theorem step_truncated_of_minus_one_half :
    let m := start (.ofRows [[.ofChar 'o']]) [.ofBits 0xbfe0000000000000] 0 {} {}
    m.status = .running ∧ m.cell? = some (.ofChar 'o') ∧ m.quoting = false ∧
      (m.truncated 0).step ≠ m.step := by
  intro m
  have hcell : m.cell? = some (.ofChar 'o') := rfl
  have hfraction : (Binary64.ofBits 0xbfe0000000000000).isNegativeFraction = true := by
    decide +kernel
  have hsame := step_truncated_eq_of_writeChar_iff (m := m) rfl hcell rfl rfl rfl hfraction
  refine ⟨rfl, hcell, rfl, fun heq => ?_⟩
  exact absurd (hsame.1 heq) nofun

end Machine

end Fish
