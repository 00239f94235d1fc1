import Fish.Proofs.SourceLines
import Mathlib.Data.List.Infix
import Mathlib.Logic.Function.Iterate

/-!
# A text as a stream of cells

A text is read by calls that give one cell each, with a look at the character after the next one and
a mark that tells whether the end was given. Seen from outside it is the text in which every
carriage return and line feed together are replaced by a line feed: the calls give a cell for each
character of that, in order, then one that marks the end of the input, and after that nothing, for
ever. Nothing is lost but the carriage returns right before a line feed.

Main lemmas:

* `Text.joinBreaks_eq_heads`     what joining the breaks drops
* `SourceText.cells_eq`          the cells of a text are those of its characters and the mark
* `SourceText.answer_after`      the calls give the cells one after the other, and then nothing
* `SourceText.answers_of_text`   all of it about one text
-/

namespace Fish

namespace Text

/-! ## Replacing in a text -/

/-- Replaces every occurrence of a pattern, which is not empty, from left to right. -/
def replaceAll (pattern replacement : List Char) : List Char → List Char
  | [] => []
  | c :: rest =>
    if pattern <+: c :: rest then
      replacement ++ replaceAll pattern replacement (rest.drop (pattern.length - 1))
    else c :: replaceAll pattern replacement rest
termination_by text => text.length

/-- A carriage return and the line feed right after it. -/
def returnFeed : List Char := ['\r', '\n']

/-- The text with each of its line breaks a single line feed. -/
def joinBreaks (text : List Char) : List Char := replaceAll returnFeed ['\n'] text

/-- A break of two characters is a carriage return with a line feed right after it. -/
theorem returnFeed_prefix_iff {c : Char} {rest : List Char} :
    returnFeed <+: c :: rest ↔ c = '\r' ∧ rest.head? = some '\n' := by
  cases rest <;> simp [returnFeed, List.cons_prefix_cons, eq_comm]

/-- An empty text has no breaks. -/
theorem joinBreaks_nil : joinBreaks [] = [] := by
  rw [joinBreaks, replaceAll]

/-- A break of two characters becomes a line feed. -/
theorem joinBreaks_returnFeed (rest : List Char) :
    joinBreaks ('\r' :: '\n' :: rest) = '\n' :: joinBreaks rest := by
  rw [joinBreaks, replaceAll, if_pos (returnFeed_prefix_iff.2 ⟨rfl, rfl⟩)]
  rfl

/-- Any other character stays. -/
theorem joinBreaks_cons {c : Char} {rest : List Char} (h : ¬returnFeed <+: c :: rest) :
    joinBreaks (c :: rest) = c :: joinBreaks rest := by
  rw [joinBreaks, replaceAll, if_neg h]
  rfl

/-- A text is empty, or begins with a break of two characters, or with a character that is not the
    first half of one. -/
theorem breaks_induction {motive : List Char → Prop} (nil : motive [])
    (returnFeed : ∀ rest, motive rest → motive ('\r' :: '\n' :: rest))
    (cons : ∀ c rest, ¬Text.returnFeed <+: c :: rest → motive rest → motive (c :: rest))
    (text : List Char) : motive text := by
  induction text using replaceAll.induct Text.returnFeed with
  | case1 => exact nil
  | case2 c rest h ih =>
    obtain ⟨rfl, hfeed⟩ := returnFeed_prefix_iff.1 h
    cases rest with
    | nil => cases hfeed
    | cons d rest =>
      cases hfeed
      exact returnFeed rest ih
  | case3 c rest h ih => exact cons c rest h ih

/-- Of the characters of a text only the carriage returns right before a line feed are dropped:
    what is left are the first characters of what remains of the text at each place, except where a
    break of two characters remains. -/
theorem joinBreaks_eq_heads (text : List Char) :
    joinBreaks text =
      (text.tails.filter fun rest => ¬returnFeed <+: rest).filterMap List.head? := by
  induction text using breaks_induction with
  | nil => simp [joinBreaks_nil, returnFeed]
  | returnFeed rest ih =>
    have hbreak : returnFeed <+: '\r' :: '\n' :: rest := returnFeed_prefix_iff.2 ⟨rfl, rfl⟩
    -- The carriage return is dropped, but the line feed after it begins no break of its own.
    have hfeed : ¬returnFeed <+: '\n' :: rest := fun h =>
      absurd (returnFeed_prefix_iff.1 h).1 (by decide)
    rw [joinBreaks_returnFeed, ih, List.tails_cons, List.tails_cons,
      List.filter_cons_of_neg (by simpa using hbreak),
      List.filter_cons_of_pos (by simpa using hfeed)]
    rfl
  | cons c rest h ih =>
    rw [joinBreaks_cons h, ih, List.tails_cons, List.filter_cons_of_pos (by simpa using h)]
    rfl

/-- Two carriage returns before a line feed, a line feed before a carriage return, the character of
    code zero, and a carriage return at the end. -/
example : joinBreaks "\r\r\n\r\x00\r".toList = ['\r', '\n', '\r', '\x00', '\r'] := by cbv

end Text

namespace SourceText

/-! ## The cells of a text -/

/-- A text is read into the cells of its characters, with the breaks joined, and the mark of its
    end. -/
theorem cells_eq (text : List Char) :
    cells ⟨text, false⟩ = (Text.joinBreaks text).map Cell.ofChar ++ [.endOfInput] := by
  induction text using Text.breaks_induction with
  | nil =>
    rw [cells_nil, Text.joinBreaks_nil]
    rfl
  | returnFeed rest ih =>
    rw [cells_returnFeed, Text.joinBreaks_returnFeed, ih]
    rfl
  | cons c rest h ih =>
    rw [cells_cons fun hc hfeed => h (Text.returnFeed_prefix_iff.2 ⟨hc, hfeed⟩),
      Text.joinBreaks_cons h, ih]
    rfl

/-! ## Call by call -/

/-- The answer to a call: a cell, or nothing. -/
def answer (s : SourceText) : Option Cell := s.next?.map Prod.fst

/-- The text after a call. If there is nothing to read it stays as it is. -/
def next (s : SourceText) : SourceText := (s.next?.map Prod.snd).getD s

/-- The text after a number of calls. -/
def after (s : SourceText) (k : Nat) : SourceText := next^[k] s

/-- A call gives the first cell that is still to be read and leaves the others, or there is none and
    the call leaves it so. -/
theorem cells_next (s : SourceText) :
    s.answer = s.cells.head? ∧ s.next.cells = s.cells.tail := by
  rw [cells_of_next?, answer, next]
  cases hnext : s.next? with
  | none =>
    refine ⟨rfl, ?_⟩
    show s.cells = []
    rw [cells_of_next?, hnext]
    rfl
  | some read => exact ⟨rfl, rfl⟩

/-- The calls give the cells one after the other, and then nothing. -/
theorem answer_after (s : SourceText) (k : Nat) : (s.after k).answer = s.cells[k]? := by
  induction k generalizing s with
  | zero => rw [after, Function.iterate_zero, id, (cells_next s).1, List.head?_eq_getElem?]
  | succ k ih =>
    have hrest := ih s.next
    rwa [(cells_next s).2, List.getElem?_tail] at hrest

/-- The calls on a text give a cell for every character of the text in which each carriage return
    and line feed are replaced by a line feed, with the character and its instruction, in order;
    then the mark of the end of the input, which no character makes; and then nothing, however
    often they are repeated. No character is missing from that but the carriage returns right
    before a line feed. -/
theorem answers_of_text (source : String) :
    (∀ k, ((ofString source).after k).answer =
      ((Text.joinBreaks source.toList).map (fun c => Cell.mk (.ofChar c) c) ++
        [Cell.mk .endOfInput '\x00'])[k]?) ∧
    (∀ k, ((ofString source).after k).answer.map Cell.instruction = some .endOfInput ↔
      k = (Text.joinBreaks source.toList).length) ∧
    (∀ k, ((ofString source).after k).answer = none ↔
      (Text.joinBreaks source.toList).length < k) ∧
    Text.joinBreaks source.toList =
      (source.toList.tails.filter fun rest => ¬['\r', '\n'] <+: rest).filterMap List.head? := by
  -- The calls give the cells one after the other, so what is left is to look at this list.
  have hgiven (k : Nat) : ((ofString source).after k).answer =
      ((Text.joinBreaks source.toList).map Cell.ofChar ++ [.endOfInput])[k]? := by
    rw [answer_after, ← cells_eq]
    rfl
  refine ⟨hgiven, fun k => ?_, fun k => ?_, Text.joinBreaks_eq_heads source.toList⟩
  · rw [hgiven]
    generalize Text.joinBreaks source.toList = joined
    -- Before the end a cell is that of a character, which is no mark; after it there is none.
    rcases Nat.lt_trichotomy k joined.length with hlt | rfl | hgt
    · rw [List.getElem?_append_left (by simpa using hlt)]
      simp [hlt, hlt.ne, Cell.ofChar, Instruction.ofChar_ne_endOfInput]
    · simp [Cell.endOfInput]
    · rw [List.getElem?_append_right (by simpa using hgt.le), List.length_map,
        List.getElem?_singleton, if_neg (Nat.sub_ne_zero_of_lt hgt)]
      simp [hgt.ne']
  · rw [hgiven, List.getElem?_eq_none_iff, List.length_append, List.length_map,
      List.length_singleton, Nat.succ_le_iff]

end SourceText

end Fish
