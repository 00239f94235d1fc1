import Fish.Proofs.PositionalText
import Fish.Proofs.SpacedText

/-!
# Printed numbers read back

What a program writes for a value is a single word without blanks. The word of a finite value is
read as the value itself, except that a zero has lost its sign; the words for the values that are
not finite are read as faults. So a text that was put together from such words, whatever the blanks
between them are, gives the values back in order.

Main lemmas:

* `Numeral.Spelling.is_word`         the text of a spelling is one word
* `Binary64.text_is_word`            so is the text of a value
* `Input.parse_text`                 what that word is read as
* `Input.printed_numbers_read_back`  all words of a text, and the form that they have
-/

namespace Fish

/-! ## Words of numerals -/

namespace Numeral

/-- A digit is not blank. -/
theorem not_blank_of_isDigit {c : Char} (h : c.isDigit = true) : Text.isBlank c = false := by
  simp only [Char.isDigit, Bool.and_eq_true, decide_eq_true_eq] at h
  have hlow : 48 ≤ c.toNat := UInt32.le_iff_toNat_le.1 h.1
  have hhigh : c.toNat ≤ 57 := UInt32.le_iff_toNat_le.1 h.2
  -- The codes of the digits lie between those of the blanks.
  have hapart : ∀ range ∈ Text.blankRanges, range.2 < 48 ∨ 57 < range.1 := by decide
  refine List.any_eq_false.2 fun range hrange hblank => ?_
  have hwithin : range.1 ≤ c.toNat ∧ c.toNat ≤ range.2 := by simpa using hblank
  have := hapart range hrange
  omega

/-- The text of a spelling is one word. -/
theorem Spelling.is_word (s : Spelling) :
    s.chars ≠ [] ∧ ∀ c ∈ s.chars, Text.isBlank c = false := by
  constructor
  · obtain ⟨c, hc, -⟩ := s.exists_isDigit
    exact List.ne_nil_of_mem hc
  · intro c hc
    rcases Spelling.mem_chars hc with hdigit | hother
    · exact not_blank_of_isDigit hdigit
    · have hall : ['+', '-', '.', 'e', 'E'].all (!Text.isBlank ·) = true := by decide
      simpa using List.all_eq_true.1 hall c hother

end Numeral

namespace Binary64

open Numeral

/-- The text of a value is one word. -/
theorem text_is_word (v : Binary64) :
    v.text.toList ≠ [] ∧ ∀ c ∈ v.text.toList, Text.isBlank c = false := by
  cases v with
  | nan =>
    have hall : nan.text.toList.all (!Text.isBlank ·) = true := by decide
    exact ⟨by decide, by simpa using hall⟩
  | infinite negative =>
    have hall : (infinite negative).text.toList.all (!Text.isBlank ·) = true := by
      cases negative <;> decide
    refine ⟨?_, by simpa using hall⟩
    cases negative <;> decide
  | finite negative units h =>
    obtain ⟨whole, places, htext, hplain, -⟩ := exists_positional negative h
    rw [htext, ← hplain.chars_spelling]
    exact hplain.spelling.is_word

/-- What is read for the text of a value: the value without the sign of a zero, or a fault with the
    text if the value is not finite. -/
def reread (v : Binary64) : Except Fault Binary64 :=
  if v.isFinite then .ok v.unsignedZero else .error (.malformedNumber v.text)

end Binary64

namespace Input

open Binary64

/-- The text of a value is read as said. -/
theorem parse_text (v : Binary64) : parse v.text = v.reread := by
  cases v with
  | nan =>
    -- The words of the other values are read, but not accepted.
    have hread : ofText? nan.text = some nan := by decide +kernel
    rw [parse, hread]
    rfl
  | infinite negative =>
    have hread : ofText? (infinite negative).text = some (infinite negative) := by
      cases negative <;> decide +kernel
    rw [parse, hread]
    rfl
  | finite negative units h =>
    have hfinite : (finite negative units h).isFinite = true := rfl
    have hread : (finite negative units h).unsignedZero.isFinite = true := by
      rw [unsignedZero_finite]
      rfl
    rw [parse, ofText?_text hfinite, reread, if_pos hfinite]
    exact if_pos hread

/-! ## The words of a text -/

/-- The answers of a text are those of its words, and after them there are none. -/
theorem stream_ofBytes (cs : List Char) :
    (ofBytes (Text.encode cs)).stream = (Text.words cs).map answerTo := by
  have hwhole : (ofBytes (Text.encode cs)).wholeLines = lines (Text.encode cs) :=
    List.filter_eq_self.2 fun line _ => rfl
  rw [stream, hwhole]
  exact answers_of_encode cs

/-- Values that were written with blanks between them are read in the same order, the sign of a zero
    aside, and then the input is exhausted; a value that is not finite gives a fault with its text
    instead. The text of a finite value has a minus only if the value is below zero, digits without
    a superfluous zero in front, and a point only in front of digits that do not end in zero; the
    other values have words. -/
theorem printed_numbers_read_back (values : List Binary64) {text : List Char}
    (h : Text.Spaced (values.map (·.text.toList)) text) :
    (∀ k, ((ofBytes (Text.encode text)).after k).answer =
      ((values.map reread)[k]?).getD (.error .inputExhausted)) ∧
    (∀ (negative : Bool) (units : Nat) (hunits : Representable units), ∃ whole places,
      (finite negative units hunits).text.toList =
        Numeral.positional (negative && units ≠ 0) whole places ∧
      Numeral.Plain (negative && units ≠ 0) whole places) ∧
    nan.text = "NaN" ∧ (infinite false).text = "inf" ∧ (infinite true).text = "-inf" := by
  have hwords : Text.words text = values.map (·.text.toList) := by
    refine Text.words_of_spaced h fun w hw => ?_
    obtain ⟨v, -, rfl⟩ := List.mem_map.1 hw
    exact v.text_is_word
  have hanswer : answerTo ∘ (fun v : Binary64 => v.text.toList) = reread := by
    funext v
    rw [Function.comp_apply, answerTo, String.ofList_toList, parse_text]
  refine ⟨fun k => ?_, fun negative units hunits => ?_, rfl, rfl, rfl⟩
  · rw [answer_after, stream_ofBytes, hwords, List.map_map, hanswer]
    rfl
  · obtain ⟨whole, places, htext, hplain, -⟩ := exists_positional negative hunits
    exact ⟨whole, places, htext, hplain⟩

/-- A half below zero, a zero with a sign and an infinity, over two lines. -/
theorem printed_numbers_read_back_over_lines :
    let half := ofRatio true (Nat.pow 2 1073) 1
    let text := [' ', '-', '0', '.', '5', '\n', '\u2003', '0', ' ', 'i', 'n', 'f']
    let input := ofBytes (Text.encode text)
    (input.after 0).answer = .ok half ∧ (input.after 1).answer = .ok (ofNat 0) ∧
      (input.after 2).answer = .error (.malformedNumber "inf") ∧
      (input.after 3).answer = .error .inputExhausted := by
  intro half text input
  have hspaced :
      Text.Spaced ([half, ofRatio true 0 1, infinite false].map (·.text.toList)) text := by
    have hhalf : half.text.toList = ['-', '0', '.', '5'] := by decide +kernel
    have hzero : (ofRatio true 0 1).text.toList = ['0'] := by decide +kernel
    have hinf : (infinite false).text.toList = ['i', 'n', 'f'] := by decide +kernel
    -- Blanks in front of the first word, a line feed among those before the second, and none at the
    -- end.
    have hspace : Text.isBlank ' ' = true := by decide
    have hfeed : Text.isBlank '\n' = true := by decide
    have hquad : Text.isBlank '\u2003' = true := by decide
    have hlast : Text.Spaced [['i', 'n', 'f']] ([' '] ++ ['i', 'n', 'f'] ++ []) :=
      .word (by simp [hspace]) (by simp) (.gap (List.forall_mem_nil _))
    have htail : Text.Spaced [['0'], ['i', 'n', 'f']] (['\n', '\u2003'] ++ ['0'] ++ _) :=
      .word (by simp [hfeed, hquad]) (by simp [hspace]) hlast
    have hall : Text.Spaced [['-', '0', '.', '5'], ['0'], ['i', 'n', 'f']]
        ([' '] ++ ['-', '0', '.', '5'] ++ _) :=
      .word (by simp [hspace]) (by simp [hfeed]) htail
    rw [List.map_cons, List.map_cons, List.map_cons, List.map_nil, hhalf, hzero, hinf]
    exact hall
  obtain ⟨hread, -⟩ := printed_numbers_read_back [half, ofRatio true 0 1, infinite false] hspaced
  have hhalf : half.reread = .ok half := by
    rw [reread, if_pos (by decide +kernel), show half.unsignedZero = half by decide +kernel]
  have hzero : (ofRatio true 0 1).reread = .ok (ofNat 0) := by
    rw [reread, if_pos (by decide +kernel), unsignedZero, if_pos (by decide +kernel)]
  rw [List.map_cons, List.map_cons, List.map_cons, List.map_nil, hhalf, hzero] at hread
  exact ⟨hread 0, hread 1, hread 2, hread 3⟩

end Input

end Fish
