import Fish.Proofs.InputStream

/-!
# Words in a text

A text with words in it and blanks between them, in UTF-8, is what a number is read from. Lines do
not matter to it: a line ends at a line feed, which is a blank and separates words anyway, and whose
byte is in the encoding of no other character. So the answers to the calls are those of the words.

Main lemmas:

* `Text.words_append_blank`     the words before a blank and those after it
* `Text.words_of_spaced`        words with blanks between them are found again
* `Text.decode?_encode`         encoded text is decoded
* `Input.answers_of_encode`     the answers of a text are those of its words
-/

namespace Fish

namespace Text

/-! ## Words -/

/-- A blank ends a word; the text after it has its words for itself. -/
theorem words_append_blank {c : Char} (hc : isBlank c = true) (before after : List Char) :
    words (before ++ c :: after) = words before ++ words after := by
  -- The induction follows the words of `before`.
  induction before using words.induct with
  | case1 => rw [List.nil_append, words_of_blank hc, words_nil, List.nil_append]
  | case2 d rest hd ih => rw [List.cons_append, words_of_blank hd, words_of_blank hd, ih]
  | case3 d rest hd ih =>
    have hd : isBlank d = false := by simpa using hd
    -- The word of `d` ends before the blank, whether or not `rest` has another one.
    have htake : (rest ++ c :: after).takeWhile (!isBlank ·) = rest.takeWhile (!isBlank ·) := by
      rw [List.takeWhile_append]
      split
      · rename_i hall
        have hrest := (List.takeWhile_prefix (!isBlank ·) (l := rest)).eq_of_length hall
        rw [List.takeWhile_cons_of_neg (by simp [hc]), List.append_nil, hrest]
      · rfl
    have hdrop : (rest ++ c :: after).dropWhile (!isBlank ·) =
        rest.dropWhile (!isBlank ·) ++ c :: after := by
      rw [List.dropWhile_append]
      split
      · rename_i hnone
        rw [List.dropWhile_cons_of_neg (by simp [hc]), List.isEmpty_iff.1 hnone, List.nil_append]
      · rfl
    rw [List.cons_append, words_of_word hd, words_of_word hd, htake, hdrop, ih, List.cons_append]

/-- Blanks before a text add no word. -/
theorem words_of_gap {gap : List Char} (h : ∀ c ∈ gap, isBlank c = true) (rest : List Char) :
    words (gap ++ rest) = words rest := by
  induction gap with
  | nil => rfl
  | cons c gap ih =>
    obtain ⟨hc, hgap⟩ := List.forall_mem_cons.1 h
    rw [List.cons_append, words_of_blank hc, ih hgap]

/-- A text without blanks is a single word. -/
theorem words_of_no_blank {word : List Char} (hne : word ≠ [])
    (h : ∀ c ∈ word, isBlank c = false) : words word = [word] := by
  cases word with
  | nil => contradiction
  | cons c rest =>
    obtain ⟨hc, hrest⟩ := List.forall_mem_cons.1 h
    have hall : ∀ d ∈ rest, (!isBlank d) = true := by
      intro d hd
      rw [hrest d hd]
      rfl
    rw [words_of_word hc, List.takeWhile_eq_self_iff.2 hall, List.dropWhile_eq_nil_iff.2 hall,
      words_nil]

/-- The text has the given words, with one or more blanks between any two of them, and any number of
    blanks before the first and after the last. -/
inductive Spaced : List (List Char) → List Char → Prop
  | gap {gap : List Char} : (∀ c ∈ gap, isBlank c = true) → Spaced [] gap
  | word {gap word : List Char} {words : List (List Char)} {rest : List Char} :
    (∀ c ∈ gap, isBlank c = true) → (∀ c ∈ rest.head?, isBlank c = true) → Spaced words rest →
    Spaced (word :: words) (gap ++ word ++ rest)

/-- Words with blanks between them are the words of the text. -/
theorem words_of_spaced {ws : List (List Char)} {text : List Char} (h : Spaced ws text)
    (hws : ∀ w ∈ ws, w ≠ [] ∧ ∀ c ∈ w, isBlank c = false) : words text = ws := by
  induction h with
  | @gap gap hgap =>
    have hwords := words_of_gap hgap []
    rwa [List.append_nil, words_nil] at hwords
  | @word gap word ws rest hgap hrest _ ih =>
    obtain ⟨⟨hne, hword⟩, hothers⟩ := List.forall_mem_cons.1 hws
    -- The gap in front adds no word, and the word itself is one.
    have hfirst : words word = [word] := words_of_no_blank hne hword
    have ih := ih hothers
    rw [List.append_assoc, words_of_gap hgap]
    -- The blank after the word, if the text goes on, is the first of the next gap.
    cases rest with
    | nil =>
      rw [words_nil] at ih
      rw [List.append_nil, hfirst, ← ih]
    | cons c rest =>
      have hc : isBlank c = true := hrest c rfl
      rw [words_of_blank hc] at ih
      rw [words_append_blank hc, hfirst, ih, List.singleton_append]

/-! ## Encoding -/

/-- The bytes of a text in UTF-8. -/
def encode (cs : List Char) : List UInt8 := cs.flatMap String.utf8EncodeChar

/-- A text in two parts has the bytes of the parts, one after the other. -/
theorem encode_append (a b : List Char) : encode (a ++ b) = encode a ++ encode b :=
  List.flatMap_append

/-- Every character has bytes, so a text that is not empty has some. -/
theorem encode_ne_nil {cs : List Char} (h : cs ≠ []) : encode cs ≠ [] := by
  cases cs with
  | nil => contradiction
  | cons c cs =>
    intro hnil
    exact String.utf8EncodeChar_ne_nil (List.flatMap_eq_nil_iff.1 hnil c List.mem_cons_self)

/-- What was encoded is decoded. -/
theorem decode?_encode (cs : List Char) : decode? (encode cs) = some (String.ofList cs) := by
  -- Bytes are valid if they are the encoding of some text.
  have hvalid : (encode cs).toByteArray.IsValidUTF8 := ByteArray.isValidUTF8_utf8Encode
  rw [decode?, String.fromUTF8?, dif_pos hvalid]
  rfl

/-- The byte of a line feed is in the encoding of no other character. -/
theorem eq_newline_of_mem {c : Char} (h : Input.lineFeed ∈ String.utf8EncodeChar c) : c = '\n' := by
  have hcode : c.val.toNat = 10 := by
    have hfeed : Input.lineFeed.toNat = 10 := rfl
    simp only [String.utf8EncodeChar] at h
    generalize c.val.toNat = code at h ⊢
    -- A single byte is the code itself; every byte of a longer encoding has its highest bit set.
    split_ifs at h <;>
      simp only [List.mem_cons, List.not_mem_nil, or_false, ← UInt8.toNat_inj,
        UInt8.toNat_ofNat', hfeed] at h <;>
      omega
  exact Char.ext (UInt32.toNat_inj.1 hcode)

/-- A text without a line feed has no byte of one. -/
theorem lineFeed_notin_encode {cs : List Char} (h : '\n' ∉ cs) : Input.lineFeed ∉ encode cs := by
  intro hmem
  obtain ⟨c, hc, hfeed⟩ := List.mem_flatMap.1 hmem
  exact h (eq_newline_of_mem hfeed ▸ hc)

end Text

namespace Input

open Text

/-! ## Answers -/

/-- The answer that a word has. -/
def answerTo (word : List Char) : Except Fault Binary64 := parse (String.ofList word)

/-- The answers of a line of text are those of its words. -/
theorem answersOf_encode (cs : List Char) : answersOf (encode cs) = (words cs).map answerTo := by
  rw [answersOf, decode?_encode]
  show ((words (String.ofList cs).toList).map String.ofList).map parse = (words cs).map answerTo
  rw [String.toList_ofList, List.map_map]
  rfl

/-- However a text is cut into lines, its answers are those of its words. -/
theorem answers_of_encode (cs : List Char) :
    (lines (encode cs)).flatMap answersOf = (words cs).map answerTo := by
  -- A line feed is cut off together with the line before it, so that less text is left.
  induction hlength : cs.length using Nat.strongRecOn generalizing cs with
  | ind length ih =>
    by_cases hfeed : '\n' ∈ cs
    · obtain ⟨before, after, rfl, hfree⟩ := List.eq_append_cons_of_mem hfeed
      have hblank : isBlank '\n' = true := by decide
      have hshorter : after.length < length := by
        rw [List.length_append, List.length_cons] at hlength
        omega
      -- The line feed has a single byte, and it ends the first line of the bytes too.
      have hencode : encode (before ++ '\n' :: after) =
          encode before ++ lineFeed :: encode after := encode_append before ('\n' :: after)
      have hline : encode before ++ [lineFeed] = encode (before ++ ['\n']) :=
        (encode_append before ['\n']).symm
      have hwords : words (before ++ ['\n']) = words before := by
        rw [words_append_blank hblank, words_nil, List.append_nil]
      rw [hencode, lines_append_feed (lineFeed_notin_encode hfree), List.flatMap_cons, hline,
        answersOf_encode, hwords, ih after.length hshorter after rfl, words_append_blank hblank,
        List.map_append]
    · -- All of the text is one line, if there is any.
      by_cases hnil : cs = []
      · rw [hnil, words_nil]
        rfl
      · rw [lines_of_no_feed (lineFeed_notin_encode hfeed) (encode_ne_nil hnil),
          List.flatMap_singleton, answersOf_encode]

end Input

end Fish
