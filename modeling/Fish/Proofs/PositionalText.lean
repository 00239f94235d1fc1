import Fish.Proofs.NumeralGrammar
import Fish.Proofs.ShortestDecimal
import Mathlib.Data.List.DropRight

/-!
# Numbers written in positions

A finite value is written with an optional minus, the digits of its whole part, and, if any are
left without the zeros at the end, a point and the digits after it. Reading takes such a text apart
again: the digits on both sides of the point, put together, count powers of ten as many places down
as stand after the point. They are not the digits of the shortest decimal, which may have zeros at
its end or an exponent of its own, but the fraction has the same value, so it is rounded to the same
number of units.

Main lemmas:

* `Numeral.ofChars?_positional`   what a text in positions is read as
* `Decimal.exists_scale`          the digits of a decimal are those of its text, up to zeros
* `Decimal.units_of_text`         so both are rounded to the same number of units
* `Binary64.ofText?_text`         the text of a finite value is read as the value
-/

namespace Fish

namespace Numeral

/-! ## Reading -/

/-- A number written in positions: a minus if there is one, the digits of the whole part, and a
    point only in front of further digits. -/
def positional (negative : Bool) (whole places : List Char) : List Char :=
  (if negative then ['-'] else []) ++ whole ++ if places = [] then [] else '.' :: places

/-- Nothing in the text is superfluous: there is no zero in front of another digit of the whole
    part, none at the end of the places, and no sign of a zero. -/
structure Plain (negative : Bool) (whole places : List Char) : Prop where
  whole_digits : ∀ c ∈ whole, c.isDigit = true
  whole_ne_nil : whole ≠ []
  no_leading_zero : whole = ['0'] ∨ whole.head? ≠ some '0'
  places_digits : ∀ c ∈ places, c.isDigit = true
  no_trailing_zero : places.getLast? ≠ some '0'
  no_negative_zero : negative = true → ¬(whole = ['0'] ∧ places = [])

variable {negative : Bool} {whole places : List Char}

/-- A text in positions as a spelling: it has a point only if there are places. -/
def Plain.spelling (h : Plain negative whole places) : Spelling where
  sign := if negative then some true else none
  whole
  places := if places = [] then none else some places
  exponent := none
  isDigit_whole := h.whole_digits
  isDigit_places := by
    split
    · exact List.forall_mem_nil _
    · exact h.places_digits
  exists_digit := by simp [h.whole_ne_nil]

/-- The text of the spelling is the text in positions. -/
theorem Plain.chars_spelling (h : Plain negative whole places) :
    h.spelling.chars = positional negative whole places := by
  rw [Spelling.chars, spelling, positional]
  by_cases hplaces : places = []
  · cases negative <;> simp [signText, pointText, exponentText, hplaces]
  · cases negative <;> simp [signText, pointText, exponentText, hplaces]

/-- The spelling denotes all its digits, as many places down as stand after the point. -/
theorem Plain.numeral_spelling (h : Plain negative whole places) :
    h.spelling.numeral = ⟨negative, natOfDigits (whole ++ places), -places.length⟩ := by
  have hplaces : (if places = [] then none else some places).getD [] = places := by
    split <;> simp_all
  rw [Spelling.numeral, Spelling.negative, Spelling.digits, Spelling.power, spelling]
  simp only [hplaces]
  cases negative <;> simp [exponentValue]

/-- A text in positions is read as its digits, as many places down as stand after the point. -/
theorem ofChars?_positional (h : Plain negative whole places) :
    ofChars? (positional negative whole places) =
      some ⟨negative, natOfDigits (whole ++ places), -places.length⟩ := by
  rw [← h.chars_spelling, ← h.numeral_spelling]
  exact ofChars?_chars h.spelling

/-- Digits in front of others count as many powers of ten as there are others. -/
theorem natOfDigits_append (a b : List Char) :
    natOfDigits (a ++ b) = natOfDigits a * Nat.pow 10 b.length + natOfDigits b := by
  rw [natOfDigits, Nat.ofDigitChars_append, Nat.ofDigitChars_eq_ofDigitChars_zero, Nat.mul_comm]
  rfl

/-- Zeros denote nothing. -/
theorem natOfDigits_zeros (n : Nat) : natOfDigits (List.replicate n '0') = 0 := by
  rw [natOfDigits, Nat.ofDigitChars_replicate_zero, Nat.mul_zero]

/-- The digits of a number denote it. -/
theorem natOfDigits_toDigits (n : Nat) : natOfDigits (Nat.toDigits 10 n) = n :=
  Nat.ofDigitChars_ten_toDigits

end Numeral

/-! ## Digits -/

/-- The digits of a number do not begin with a zero, unless the number is zero. -/
theorem head?_toDigits {n : Nat} (h : n ≠ 0) : (Nat.toDigits 10 n).head? ≠ some '0' := by
  induction n using Nat.strongRecOn with
  | ind n ih =>
    by_cases hn : n < 10
    · rw [Nat.toDigits_of_lt_base hn, List.head?_cons]
      intro hzero
      exact h (Nat.digitChar_eq_zero.1 (Option.some.inj hzero))
    · -- The last digit aside, a longer number has the digits of its tenth part.
      rw [Nat.toDigits_of_base_le (by decide) (by omega),
        List.head?_append_of_ne_nil _ Nat.toDigits_ne_nil]
      exact ih (n / 10) (by omega) (by omega)

/-- The zeros at the end of a text, put back. -/
theorem exists_trailing_zeros (cs : List Char) :
    ∃ zeros, cs = cs.rdropWhile (· = '0') ++ List.replicate zeros '0' := by
  have hall : ∀ c ∈ cs.rtakeWhile (· = '0'), c = '0' := by
    intro c hc
    have hzero := List.mem_rtakeWhile_imp hc
    simpa using hzero
  refine ⟨(cs.rtakeWhile (· = '0')).length, ?_⟩
  rw [← List.eq_replicate_of_mem hall, List.rdropWhile_append_rtakeWhile]

namespace Decimal

open Binary64 Numeral

variable {d : Decimal}

/-- All digits after the point, down to the last place of the decimal. -/
def allPlaces (d : Decimal) : List Char :=
  let digits := Nat.toDigits 10 (d.digits % d.den)
  List.replicate ((-d.exponent).toNat - digits.length) '0' ++ digits

/-- The places of the text are those of the decimal without the zeros at the end. -/
theorem placesText_eq (d : Decimal) : d.placesText = d.allPlaces.rdropWhile (· = '0') := rfl

/-- A decimal without places has a single zero there. -/
theorem allPlaces_of_nonneg (h : 0 ≤ d.exponent) : d.allPlaces = ['0'] := by
  have hcount : (-d.exponent).toNat = 0 := by omega
  rw [allPlaces, den, hcount, show d.digits % Nat.pow 10 0 = 0 from Nat.mod_one _,
    Nat.toDigits_zero]
  rfl

/-- The places denote the remainder by the denominator. -/
theorem natOfDigits_allPlaces (d : Decimal) : natOfDigits d.allPlaces = d.digits % d.den := by
  rw [allPlaces, natOfDigits_append, natOfDigits_zeros, natOfDigits_toDigits, Nat.zero_mul,
    Nat.zero_add]

/-- There are as many digits as places. -/
theorem length_allPlaces (h : d.exponent < 0) : d.allPlaces.length = (-d.exponent).toNat := by
  -- The remainder is less than the denominator, so its digits leave room for the zeros in front.
  have hfits : (Nat.toDigits 10 (d.digits % d.den)).length ≤ (-d.exponent).toNat := by
    rw [Nat.length_toDigits_le_iff (by decide) (by omega)]
    exact Nat.mod_lt _ (Nat.pow_pos (by decide))
  rw [allPlaces, List.length_append, List.length_replicate]
  omega

/-- The places consist of digits. -/
theorem isDigit_of_mem_allPlaces {c : Char} (h : c ∈ d.allPlaces) : c.isDigit = true := by
  rcases List.mem_append.1 h with hzero | hdigit
  · rw [List.eq_of_mem_replicate hzero]
    rfl
  · exact Nat.isDigit_of_mem_toDigits (by decide) (by decide) hdigit

/-- The digits of the text denote the decimal, but for zeros at its end that the text leaves out;
    the denominator has as many more zeros. -/
theorem exists_scale (d : Decimal) :
    ∃ zeros, d.digits * Nat.pow 10 d.exponent.toNat =
        natOfDigits (d.wholeText ++ d.placesText) * Nat.pow 10 zeros ∧
      d.den = Nat.pow 10 d.placesText.length * Nat.pow 10 zeros := by
  by_cases hexp : 0 ≤ d.exponent
  · -- Without places the whole part is all there is.
    have hplaces : d.placesText = [] := by
      rw [placesText_eq, allPlaces_of_nonneg hexp]
      rfl
    have hden : d.den = 1 := by
      rw [den, show (-d.exponent).toNat = 0 by omega, Nat.pow_eq, Nat.pow_zero]
    refine ⟨0, ?_, ?_⟩
    · rw [hplaces, List.append_nil, wholeText, natOfDigits_toDigits, hden, Nat.div_one]
      exact (Nat.mul_one _).symm
    · rw [hplaces, hden]
      rfl
  · obtain ⟨zeros, hzeros⟩ := exists_trailing_zeros d.allPlaces
    rw [← placesText_eq] at hzeros
    -- The zeros that the text leaves out are as many places of the denominator.
    have hden : d.den = Nat.pow 10 d.placesText.length * Nat.pow 10 zeros := by
      have hlength := congrArg List.length hzeros
      rw [length_allPlaces (by omega), List.length_append, List.length_replicate] at hlength
      rw [den, hlength]
      exact Nat.pow_add 10 _ _
    have hnum : d.digits * Nat.pow 10 d.exponent.toNat = d.digits := by
      rw [show d.exponent.toNat = 0 by omega]
      exact Nat.mul_one _
    have hwhole : natOfDigits d.wholeText = d.digits / d.den := by
      rw [wholeText, natOfDigits_toDigits, hnum]
    -- The places and the zeros that were left out denote the remainder.
    have hrest : natOfDigits d.placesText * Nat.pow 10 zeros = d.digits % d.den := by
      rw [← natOfDigits_allPlaces, hzeros, natOfDigits_append, natOfDigits_zeros,
        List.length_replicate, Nat.add_zero]
    refine ⟨zeros, ?_, hden⟩
    calc d.digits * Nat.pow 10 d.exponent.toNat = d.digits := hnum
      _ = d.digits / d.den * d.den + d.digits % d.den := (Nat.div_add_mod' ..).symm
      _ = natOfDigits d.wholeText * (Nat.pow 10 d.placesText.length * Nat.pow 10 zeros) +
          natOfDigits d.placesText * Nat.pow 10 zeros := by rw [hwhole, hrest, ← hden]
      _ = natOfDigits (d.wholeText ++ d.placesText) * Nat.pow 10 zeros := by
        rw [natOfDigits_append, Nat.add_mul, Nat.mul_assoc]

/-- What the text is read as is rounded to the number of units of the decimal. -/
theorem units_of_text (d : Decimal) :
    Decimal.units ⟨natOfDigits (d.wholeText ++ d.placesText), -d.placesText.length⟩ = d.units := by
  obtain ⟨zeros, hnum, hden⟩ := exists_scale d
  have hwhole : (-(d.placesText.length : Int)).toNat = 0 := by omega
  have hplaces : (- -(d.placesText.length : Int)).toNat = d.placesText.length := by omega
  have hone : Nat.pow 10 0 = 1 := rfl
  have hpos : 0 < Nat.pow 10 zeros := Nat.pow_pos (by decide)
  generalize natOfDigits (d.wholeText ++ d.placesText) = digits at hnum
  -- The fraction of the decimal is that of its text, with the same zeros on both sides.
  have hscale : d.num = digits * unitsPerOne * Nat.pow 10 zeros := by
    rw [num, hnum, Nat.mul_right_comm]
  have hunits : d.units = roundUnits (digits * unitsPerOne) (Nat.pow 10 d.placesText.length) := by
    rw [Decimal.units, hscale, hden, roundUnits_scale _ _ hpos]
  rw [hunits, Decimal.units, num, den, hwhole, hplaces, hone, Nat.mul_one]

/-- The text of a decimal that is not rounded to zero has nothing superfluous. -/
theorem plain_text (negative : Bool) (h : d.units ≠ 0) :
    Plain negative d.wholeText d.placesText where
  whole_digits c hc := Nat.isDigit_of_mem_toDigits (by decide) (by decide) hc
  whole_ne_nil := Nat.toDigits_ne_nil
  no_leading_zero := by
    rw [wholeText]
    generalize d.digits * Nat.pow 10 d.exponent.toNat / d.den = n
    by_cases hn : n = 0
    · exact .inl (by rw [hn, Nat.toDigits_zero])
    · exact .inr (head?_toDigits hn)
  places_digits c hc := by
    rw [placesText_eq] at hc
    exact isDigit_of_mem_allPlaces ((List.rdropWhile_prefix _ _).subset hc)
  no_trailing_zero hlast := by
    rw [placesText_eq] at hlast
    -- There is a last place, and it was kept for not being a zero.
    have hne : d.allPlaces.rdropWhile (· = '0') ≠ [] := by
      intro hnil
      rw [hnil] at hlast
      cases hlast
    rw [List.getLast?_eq_some_getLast hne] at hlast
    exact List.rdropWhile_last_not _ _ hne (decide_eq_true (Option.some.inj hlast))
  no_negative_zero := by
    rintro - ⟨hwhole, hplaces⟩
    -- A single zero would be read as no units.
    refine h ((units_of_text d).symm.trans (units_of_digits_eq_zero ?_))
    rw [hwhole, hplaces]
    rfl

/-- The text of a decimal is a text in positions. -/
theorem positional_text (negative : Bool) (d : Decimal) :
    (if negative then ['-'] else []) ++ d.text = positional negative d.wholeText d.placesText := by
  rw [text, positional]
  cases hplaces : d.placesText with
  | nil => simp
  | cons c places => simp

end Decimal

namespace Binary64

open Numeral

/-! ## Values -/

/-- The value itself, but a zero without its sign. -/
def unsignedZero (v : Binary64) : Binary64 := if v.isZero then ofNat 0 else v

/-- Without the sign of a zero only values other than zero have a minus. -/
theorem unsignedZero_finite (negative : Bool) {units : Nat} (h : Representable units) :
    (finite negative units h).unsignedZero = finite (negative && units ≠ 0) units h := by
  by_cases hzero : units = 0
  · subst hzero
    have hround : roundUnits (0 * unitsPerOne) 1 = 0 := by
      rw [Nat.zero_mul]
      exact roundUnits_of_lt (by decide)
    have hsign : (negative && decide (0 ≠ 0)) = false := Bool.and_false negative
    rw [unsignedZero, if_pos (by rfl), hsign, ofNat, ofRatio_of_roundUnits false hround h]
  · have hsign : (negative && units ≠ 0) = negative := by simp [hzero]
    have hne : ¬(finite negative units h).isZero = true := fun h => hzero (of_decide_eq_true h)
    rw [unsignedZero, if_neg hne, hsign]

/-- Only the negative zero differs. -/
theorem unsignedZero_eq_self {v : Binary64} (h : v ≠ (ofNat 0).neg) : v.unsignedZero = v := by
  cases v with
  | nan => rfl
  | infinite => rfl
  | finite negative units hunits =>
    rw [unsignedZero_finite]
    by_cases hzero : units = 0
    · subst hzero
      have hnone := unsignedZero_finite false hunits
      rw [unsignedZero, if_pos (by rfl), Bool.false_and] at hnone
      cases negative with
      | false => rfl
      | true => exact absurd (congrArg neg hnone).symm h
    · simp [hzero]

/-- The text of a finite value has a minus only if the value is below zero, nothing in it is
    superfluous, and its digits are rounded to the number of units of the value. -/
theorem exists_positional (negative : Bool) {units : Nat} (h : Representable units) :
    ∃ whole places, (finite negative units h).text.toList =
        positional (negative && units ≠ 0) whole places ∧
      Plain (negative && units ≠ 0) whole places ∧
      Decimal.units ⟨natOfDigits (whole ++ places), -places.length⟩ = units := by
  -- A zero is written without a search for its decimal.
  by_cases hzero : units = 0
  · have hsign : (negative && units ≠ 0) = false := by simp [hzero]
    have hplain : Plain false ['0'] [] := by
      constructor <;> simp
    rw [hsign, text, if_pos hzero]
    refine ⟨['0'], [], rfl, hplain, ?_⟩
    rw [hzero]
    exact Decimal.units_of_digits_eq_zero rfl
  · have hsign : (negative && units ≠ 0) = negative := by simp [hzero]
    have hround : (Decimal.shortest units).units = units := Decimal.units_shortest h
    rw [hsign, text, if_neg hzero, String.toList_ofList, Decimal.positional_text]
    refine ⟨_, _, rfl, Decimal.plain_text negative ?_, ?_⟩
    · rwa [hround]
    · rw [Decimal.units_of_text, hround]

/-- The text of a finite value is read as the value, but for the sign of a zero. -/
theorem ofText?_text {v : Binary64} (h : v.isFinite = true) :
    ofText? v.text = some v.unsignedZero := by
  cases v with
  | nan => cases h
  | infinite => cases h
  | finite negative units hunits =>
    obtain ⟨whole, places, htext, hplain, hround⟩ := exists_positional negative hunits
    rw [ofText?, htext, ofChars?_positional hplain, unsignedZero_finite]
    exact congrArg some (Decimal.toBinary64_eq _ hround hunits)

end Binary64

end Fish
