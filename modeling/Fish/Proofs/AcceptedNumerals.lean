import Fish.Proofs.NearestValue
import Fish.Proofs.NumeralGrammar
import Fish.Proofs.ReadBack

/-!
# Accepted numerals

A word of the input is a number if it is a spelling and the rational number that it denotes is
within the middle between the greatest value of the format and its end. The answer is then the
nearest value, whatever the number of digits and the exponent are. Every other word is a fault with
the word itself; the words for values that are not finite are among them.

Main lemmas:

* `Numeral.Spelling.value_eq`        the number that a spelling denotes, as a fraction of units
* `Numeral.Spelling.inRange_iff`     it is in range if this fraction is not rounded to the limit
* `Numeral.Spelling.isNearest`       what a spelling in range is read as
* `Input.parse_eq_ok_iff`            which words are read as a value
* `Input.numerals_accepted`          the answers to the words of an input
-/

namespace Fish

namespace Numeral.Spelling

open Binary64

variable (s : Spelling)

/-! ## The number that a spelling denotes -/

/-- The rational number that a spelling denotes. -/
def value : ℚ := signed s.negative s.digits * (10 : ℚ) ^ s.power

/-- The number is nearer to the greatest value of the format, or to its opposite, than to the power
    of two after it. -/
def InRange : Prop := |s.value| < 2 ^ 1024 - 2 ^ 970

/-- The number that a spelling denotes is the fraction of units that it is read as, over the units
    in one. -/
theorem value_eq :
    s.value = (signed s.negative s.numeral.decimal.num : ℚ) /
      (s.numeral.decimal.den * unitsPerOne) := by
  have hone : (unitsPerOne : ℚ) ≠ 0 := Nat.cast_ne_zero.2 (Nat.ne_of_gt unitsPerOne_pos)
  -- A power of ten counts in the numerator or in the denominator of the fraction, by its sign.
  have hpower : (10 : ℚ) ^ s.power = 10 ^ s.power.toNat / 10 ^ (-s.power).toNat := by
    have hsplit : s.power = s.power.toNat - (-s.power).toNat := by omega
    conv_lhs => rw [hsplit, zpow_sub₀ (by decide), zpow_natCast, zpow_natCast]
  have hnum : (signed s.negative s.numeral.decimal.num : ℚ) =
      signed s.negative s.digits * 10 ^ s.power.toNat * unitsPerOne := by
    have hten : ((Nat.pow 10 s.power.toNat : Nat) : ℚ) = 10 ^ s.power.toNat := Nat.cast_pow ..
    rw [Decimal.num, signed_mul, signed_mul, Int.cast_mul, Int.cast_mul, Int.cast_natCast,
      Int.cast_natCast, ← hten]
    rfl
  have hden : (s.numeral.decimal.den : ℚ) = 10 ^ (-s.power).toNat := Nat.cast_pow ..
  rw [value, hpower, hnum, hden]
  field_simp

/-- The end of the range, in units. -/
theorem end_of_range :
    (2 : ℚ) ^ 1024 - 2 ^ 970 = ((unitsLimit - halfGrain : Nat) : ℚ) / unitsPerOne := by
  have hone : (unitsPerOne : ℚ) ≠ 0 := Nat.cast_ne_zero.2 (Nat.ne_of_gt unitsPerOne_pos)
  have hle : halfGrain ≤ unitsLimit := by decide +kernel
  rw [eq_div_iff hone, Nat.cast_sub hle, sub_mul]
  -- The exponents are hidden, lest the powers be computed.
  obtain ⟨n, hunit, hlimit, hhalf⟩ : ∃ n, unitsPerOne = Nat.pow 2 n ∧
      unitsLimit = Nat.pow 2 (1024 + n) ∧ halfGrain = Nat.pow 2 (970 + n) := by
    refine ⟨1074, ?_, ?_, ?_⟩ <;> decide +kernel
  have hcast (e : Nat) : ((Nat.pow 2 e : Nat) : ℚ) = 2 ^ e := Nat.cast_pow 2 e
  rw [hunit, hlimit, hhalf, hcast, hcast, hcast, ← pow_add, ← pow_add]

/-- A number is in range if it is not rounded to the limit of the format or beyond. -/
theorem inRange_iff :
    s.InRange ↔ roundUnits s.numeral.decimal.num s.numeral.decimal.den < unitsLimit := by
  have hden : 0 < s.numeral.decimal.den := Nat.pow_pos (by decide)
  have hpos : (0 : ℚ) < s.numeral.decimal.den := Nat.cast_pos.2 hden
  have hone : (0 : ℚ) < unitsPerOne := Nat.cast_pos.2 unitsPerOne_pos
  -- Both sides are fractions of ones, so their numerators are compared.
  rw [InRange, value_eq, end_of_range, abs_div, abs_signed, abs_of_pos (mul_pos hpos hone),
    div_lt_div_iff₀ (mul_pos hpos hone) hone, ← mul_assoc, mul_lt_mul_iff_left₀ hone,
    ← Nat.cast_mul, Nat.cast_lt]
  rw [roundUnits_lt_limit_iff hden, Nat.sub_mul, Nat.lt_sub_iff_add_lt]

/-! ## What a spelling is read as -/

/-- A spelling is read as its fraction of units, rounded. -/
theorem toBinary64_numeral :
    s.numeral.toBinary64 = ofRatio s.negative s.numeral.decimal.num s.numeral.decimal.den :=
  Decimal.toBinary64_eq_ofRatio ..

/-- The value is finite if the number is in range. -/
theorem isFinite_iff : s.numeral.toBinary64.isFinite = true ↔ s.InRange := by
  rw [toBinary64_numeral, inRange_iff, ofRatio]
  split
  · rename_i hlt
    exact iff_of_true rfl hlt
  · rename_i hge
    exact iff_of_false Bool.false_ne_true hge

/-- The value has the sign of the spelling. -/
theorem hasMinus_toBinary64 : s.numeral.toBinary64.hasMinus = s.negative := by
  rw [toBinary64_numeral, ofRatio]
  split <;> rfl

/-- A spelling in range is read as the value nearest to the number that it denotes. -/
theorem isNearest (h : s.InRange) : s.numeral.toBinary64.IsNearest s.value := by
  have hround := s.inRange_iff.1 h
  have hden : 0 < s.numeral.decimal.den := Nat.pow_pos (by decide)
  rw [toBinary64_numeral, ofRatio, dif_pos hround, value_eq]
  exact isNearest_finite s.negative _ hden ⟨hround, grain_dvd_roundUnits _ _⟩

end Numeral.Spelling

namespace Input

open Binary64 Numeral

variable {cs : List Char} {v : Binary64}

/-! ## One word -/

/-- The words for values without digits are those of values that are not finite. -/
theorem isFinite_of_ofWord? (h : ofWord? cs = some v) : v.isFinite = false := by
  simp only [ofWord?] at h
  split at h <;> cases h <;> rfl

/-- A word is read as a value if it is a spelling of a number in range, and then as the value
    nearest to this number, with the sign of the spelling. -/
theorem parse_eq_ok_iff : parse (String.ofList cs) = .ok v ↔
    ∃ s : Spelling, s.chars = cs ∧ s.InRange ∧ v.IsNearest s.value ∧ v.hasMinus = s.negative := by
  rw [parse, ofText?, String.toList_ofList]
  constructor
  · intro h
    cases hread : ofChars? cs with
    | some numeral =>
      -- A text that is read is that of a spelling.
      obtain ⟨s, hs, rfl⟩ := ofChars?_eq_some_iff.1 hread
      simp only [hread] at h
      split at h
      · rename_i hfinite
        cases h
        have hrange := s.isFinite_iff.1 hfinite
        exact ⟨s, hs, hrange, s.isNearest hrange, s.hasMinus_toBinary64⟩
      · cases h
    | none =>
      -- Only the words for values that are not finite are left.
      simp only [hread] at h
      cases hword : ofWord? cs with
      | none =>
        rw [hword] at h
        cases h
      | some value =>
        simp [hword, isFinite_of_ofWord? hword] at h
  · rintro ⟨s, rfl, hrange, hnearest, hminus⟩
    -- The value that the spelling is read as is nearest too, so it is the same one.
    have hvalue : s.numeral.toBinary64 = v :=
      (s.isNearest hrange).unique hnearest (s.hasMinus_toBinary64.trans hminus.symm)
    simp [ofChars?_chars, hvalue, hnearest.isFinite]

/-- A word that is not read as a value is a fault with the word. -/
theorem parse_eq_error {token : String} (h : ∀ v, parse token ≠ .ok v) :
    parse token = .error (.malformedNumber token) := by
  unfold parse at h ⊢
  split
  · rename_i value hread
    split
    · rename_i hfinite
      exact absurd (by simp [hread, hfinite]) (h value)
    · rfl
  · rfl

/-! ## The words of an input -/

/-- An input of words with blanks between them answers each of them in turn. The answer is a value
    if and only if the word is a spelling of a number in range, and then it is the value nearest to
    this number, of two the one with the even significand, with the sign of the spelling. For every
    other word it is a fault with the word; so it is if there is no digit in the word, or a
    character that no spelling has. -/
theorem numerals_accepted {tokens : List (List Char)} {text : List Char}
    (h : Text.Spaced tokens text)
    (htokens : ∀ token ∈ tokens, token ≠ [] ∧ ∀ c ∈ token, Text.isBlank c = false)
    {k : Nat} {token : List Char} (hk : tokens[k]? = some token) :
    let answer := ((ofBytes (Text.encode text)).after k).answer
    ((∃ v, answer = .ok v) ↔ ∃ s : Spelling, s.chars = token ∧ s.InRange) ∧
    (∀ v, answer = .ok v ↔ ∃ s : Spelling, s.chars = token ∧ s.InRange ∧
      v.IsNearest s.value ∧ v.hasMinus = s.negative) ∧
    ((¬∃ s : Spelling, s.chars = token ∧ s.InRange) →
      answer = .error (.malformedNumber (String.ofList token))) ∧
    ((∀ c ∈ token, c.isDigit = false) ∨
      (∃ c ∈ token, c.isDigit = false ∧ c ∉ ['+', '-', '.', 'e', 'E']) →
        answer = .error (.malformedNumber (String.ofList token))) := by
  intro answer
  -- The words of the text are the ones given, so each answer is what its word is parsed as.
  have hanswer : answer = parse (String.ofList token) := by
    show ((ofBytes (Text.encode text)).after k).answer = answerTo token
    rw [answer_after, stream_ofBytes, Text.words_of_spaced h htokens, List.getElem?_map, hk]
    rfl
  have haccepts : (∃ v, answer = .ok v) ↔ ∃ s : Spelling, s.chars = token ∧ s.InRange := by
    constructor
    · rintro ⟨v, hv⟩
      obtain ⟨s, hs, hrange, -⟩ := parse_eq_ok_iff.1 (hanswer.symm.trans hv)
      exact ⟨s, hs, hrange⟩
    · rintro ⟨s, hs, hrange⟩
      have hvalue := parse_eq_ok_iff.2 ⟨s, hs, hrange, s.isNearest hrange, s.hasMinus_toBinary64⟩
      exact ⟨_, hanswer.trans hvalue⟩
  -- What is not answered with a value is answered with this fault.
  have hrejects (hnone : ¬∃ s : Spelling, s.chars = token ∧ s.InRange) :
      answer = .error (.malformedNumber (String.ofList token)) := by
    rw [hanswer]
    exact parse_eq_error fun v hv => hnone (haccepts.1 ⟨v, hanswer.trans hv⟩)
  refine ⟨haccepts, fun v => hanswer ▸ parse_eq_ok_iff, hrejects, fun hchars => hrejects ?_⟩
  -- A spelling has a digit, and no characters but its own.
  rintro ⟨s, rfl, -⟩
  rcases hchars with hdigit | ⟨c, hc, hdigit, hother⟩
  · obtain ⟨c, hc, hd⟩ := s.exists_isDigit
    rw [hdigit c hc] at hd
    cases hd
  · rcases Spelling.mem_chars hc with hd | hd
    · rw [hdigit] at hd
      cases hd
    · exact hother hd

/-- A number halfway between two values, which goes to the even one, a number out of range, and a
    word without digits. -/
theorem numerals_accepted_over_tie :
    let text := "9007199254740993 1e400 -inf".toList
    let input := ofBytes (Text.encode text)
    (input.after 0).answer = .ok (ofNat 9007199254740992) ∧
      (input.after 1).answer = .error (.malformedNumber "1e400") ∧
      (input.after 2).answer = .error (.malformedNumber "-inf") := by
  intro text input
  let tie : Spelling :=
    ⟨none, "9007199254740993".toList, none, none, List.all_eq_true.1 (by decide),
      List.forall_mem_nil _, by decide⟩
  let tokens := [tie.chars, "1e400".toList, "-inf".toList]
  -- The text begins with a word, and a single space stands in front of each of the others.
  have hspaced : Text.Spaced tokens text := by
    have hspace : Text.isBlank ' ' = true := by decide
    have hlast : Text.Spaced ["-inf".toList] ([' '] ++ "-inf".toList ++ []) :=
      .word (by simp [hspace]) (by simp) (.gap (List.forall_mem_nil _))
    have htail : Text.Spaced ["1e400".toList, "-inf".toList] ([' '] ++ "1e400".toList ++ _) :=
      .word (by simp [hspace]) (by simp [hspace]) hlast
    have hall : Text.Spaced tokens ([] ++ tie.chars ++ _) :=
      .word (List.forall_mem_nil _) (by simp [hspace]) htail
    exact hall
  have hwords : ∀ token ∈ tokens, token ≠ [] ∧ ∀ c ∈ token, Text.isBlank c = false := by
    have hall : ∀ token ∈ tokens, token ≠ [] ∧ token.all (!Text.isBlank ·) = true := by decide
    intro token htoken
    obtain ⟨hne, hblank⟩ := hall token htoken
    exact ⟨hne, by simpa using hblank⟩
  refine ⟨?_, ?_, ?_⟩
  · obtain ⟨-, hvalue, -⟩ := numerals_accepted hspaced hwords (show tokens[0]? = _ from rfl)
    have hrange : tie.InRange := by
      rw [Spelling.inRange_iff]
      decide +kernel
    have hread : tie.numeral.toBinary64 = ofNat 9007199254740992 := by decide +kernel
    exact (hvalue _).2 ⟨tie, rfl, hrange, hread ▸ tie.isNearest hrange,
      hread ▸ tie.hasMinus_toBinary64⟩
  · obtain ⟨-, -, hfault, -⟩ := numerals_accepted hspaced hwords (show tokens[1]? = _ from rfl)
    refine hfault ?_
    rintro ⟨s, hs, hrange⟩
    -- The text is that of a single number.
    have hread : ofChars? "1e400".toList = some s.numeral := hs ▸ ofChars?_chars s
    have hnumeral : s.numeral = ⟨false, ⟨1, 400⟩⟩ := by
      have hvalue : ofChars? "1e400".toList = some ⟨false, ⟨1, 400⟩⟩ := by decide +kernel
      exact Option.some.inj (hread.symm.trans hvalue)
    rw [Spelling.inRange_iff, hnumeral] at hrange
    revert hrange
    decide +kernel
  · obtain ⟨-, -, -, hfault⟩ := numerals_accepted hspaced hwords (show tokens[2]? = _ from rfl)
    have hnone : "-inf".toList.all (!·.isDigit) = true := by decide
    exact hfault (.inl fun c hc => by simpa using List.all_eq_true.1 hnone c hc)

end Input

end Fish
