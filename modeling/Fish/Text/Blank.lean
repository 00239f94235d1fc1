/-!
# Blank space

The characters with the property White_Space, and the words between them.

Main lemmas:

* `isBlank_of_isWhitespace`   the blanks among the ASCII characters are all here
* `words_of_blank`, `words_of_word`   blanks separate words and are never part of one
-/

namespace Fish.Text

/-- The code points with the property, as ranges with both ends included. -/
def blankRanges : List (Nat × Nat) :=
  [(0x9, 0xd), (0x20, 0x20), (0x85, 0x85), (0xa0, 0xa0), (0x1680, 0x1680), (0x2000, 0x200a),
  (0x2028, 0x2029), (0x202f, 0x202f), (0x205f, 0x205f), (0x3000, 0x3000)]

/-- The character has the property White_Space. -/
def isBlank (c : Char) : Bool :=
  blankRanges.any fun (first, last) => first ≤ c.toNat && c.toNat ≤ last

/-- The blanks among the ASCII characters have the property. -/
theorem isBlank_of_isWhitespace {c : Char} (h : c.isWhitespace = true) : isBlank c = true := by
  simp only [Char.isWhitespace, Bool.or_eq_true, decide_eq_true_eq] at h
  rcases h with ((rfl | rfl) | rfl) | rfl <;> decide

/-- The words of a text: its longest runs of characters that are not blank, in order. -/
def words (cs : List Char) : List (List Char) :=
  match cs with
  | [] => []
  | c :: rest =>
    if isBlank c then words rest
    else (c :: rest.takeWhile (!isBlank ·)) :: words (rest.dropWhile (!isBlank ·))
termination_by cs.length
decreasing_by
  · simp
  · exact Nat.lt_succ_of_le (List.dropWhile_sublist _).length_le

/-- An empty text has no words. -/
@[simp] theorem words_nil : words [] = [] := by
  rw [words]

/-- A blank before a text adds no word. -/
theorem words_of_blank {c : Char} (h : isBlank c = true) (rest : List Char) :
    words (c :: rest) = words rest := by
  rw [words, if_pos h]

/-- A text that begins with another character begins with a word, which goes on up to the next
    blank. -/
theorem words_of_word {c : Char} (h : isBlank c = false) (rest : List Char) :
    words (c :: rest) =
      (c :: rest.takeWhile (!isBlank ·)) :: words (rest.dropWhile (!isBlank ·)) := by
  rw [words, if_neg (by simp [h])]

end Fish.Text
