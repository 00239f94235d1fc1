import Fish.Proofs.Action
import Fish.Input
import Mathlib.Data.List.TakeWhile
import Mathlib.Logic.Function.Iterate

/-!
# The input as a stream of answers

Asking for numbers takes the input line by line, and only when no word of an earlier line is left.
Seen from outside none of this shows: `Input.lines` cuts the bytes into lines, `Input.answersOf`
says what each line has to tell, and the answers to the calls are those of the lines one after the
other, followed by the fault for want of input, or by that of a broken source, for ever.

The lines do show in what is taken: after an answer exactly the lines up to the one that it comes
from have been taken.

Main lemmas:

* `flatten_lines`            cutting into lines loses nothing
* `lines_of_takeLine?`       a line that is taken is the first one
* `ask_cases`                what one call does to the answers that are still to come
* `answer_after`             the answers are those of the lines, and then the fault at the end
* `answers_by_lines`         this together with what is taken
-/

namespace Fish.Input

variable {bytes line rest : List UInt8} {broken : Bool} {input : Input}

/-! ## Lines -/

/-- Cuts bytes after each line feed. A rest without one is the last line. -/
def lines : List UInt8 → List (List UInt8)
  | [] => []
  | b :: rest =>
    if b = lineFeed then [b] :: lines rest
    else
      match lines rest with
      | [] => [[b]]
      | line :: others => (b :: line) :: others

/-- The line ends with a line feed. -/
def isTerminated (line : List UInt8) : Bool := line.getLast? = some lineFeed

/-- The line can be taken: a broken source gives only lines that are terminated. -/
def isWhole (broken : Bool) (line : List UInt8) : Bool := !broken || isTerminated line

/-- Cutting into lines loses nothing. -/
theorem flatten_lines (bytes : List UInt8) : (lines bytes).flatten = bytes := by
  induction bytes with
  | nil => rfl
  | cons b rest ih =>
    rw [lines]
    split
    · rw [List.flatten_cons, ih, List.singleton_append]
    · -- The byte is put in front of the first line of the rest, or is a line of its own.
      cases h : lines rest with
      | nil =>
        rw [h, List.flatten_nil] at ih
        rw [← ih]
        rfl
      | cons line others =>
        rw [h, List.flatten_cons] at ih
        rw [List.flatten_cons, List.cons_append, ih]

/-- The first line goes up to the first line feed. -/
theorem lines_append_feed (h : lineFeed ∉ line) (rest : List UInt8) :
    lines (line ++ lineFeed :: rest) = (line ++ [lineFeed]) :: lines rest := by
  induction line with
  | nil => rfl
  | cons b line ih =>
    obtain ⟨hb, hline⟩ := not_or.1 (fun hmem => h (List.mem_cons.2 hmem))
    rw [List.cons_append, lines, if_neg (Ne.symm hb), ih hline]
    rfl

/-- Without a line feed there is one line at most. -/
theorem lines_of_no_feed (h : lineFeed ∉ line) (hne : line ≠ []) : lines line = [line] := by
  induction line with
  | nil => contradiction
  | cons b line ih =>
    obtain ⟨hb, hline⟩ := not_or.1 (fun hmem => h (List.mem_cons.2 hmem))
    rw [lines, if_neg (Ne.symm hb)]
    cases line with
    | nil => rfl
    | cons c line => rw [ih hline (List.cons_ne_nil c line)]

/-- The line up to the first line feed is taken with it. -/
theorem takeLine?_append_feed (h : lineFeed ∉ line) (rest : List UInt8) (broken : Bool) :
    takeLine? (line ++ lineFeed :: rest) broken = some (line ++ [lineFeed], rest) := by
  have hall : ∀ b ∈ line, decide (b ≠ lineFeed) = true := fun b hb =>
    decide_eq_true fun heq => h (heq ▸ hb)
  have htake : (line ++ lineFeed :: rest).takeWhile (· ≠ lineFeed) = line := by
    rw [List.takeWhile_append_of_pos hall]
    simp
  have hdrop : (line ++ lineFeed :: rest).dropWhile (· ≠ lineFeed) = lineFeed :: rest := by
    rw [List.dropWhile_append_of_pos hall]
    simp
  simp only [takeLine?, htake, hdrop]

/-- Without a line feed the rest is taken, unless it is empty or the source is broken. -/
theorem takeLine?_of_no_feed (h : lineFeed ∉ bytes) (broken : Bool) :
    takeLine? bytes broken = if bytes.isEmpty || broken then none else some (bytes, []) := by
  have hall : ∀ b ∈ bytes, decide (b ≠ lineFeed) = true := fun b hb =>
    decide_eq_true fun heq => h (heq ▸ hb)
  have htake : bytes.takeWhile (· ≠ lineFeed) = bytes := List.takeWhile_eq_self_iff.2 hall
  have hdrop : bytes.dropWhile (· ≠ lineFeed) = [] := List.dropWhile_eq_nil_iff.2 hall
  simp only [takeLine?, htake, hdrop]

/-- Without a line feed nothing ends a line. -/
theorem isTerminated_of_no_feed (h : lineFeed ∉ line) : isTerminated line = false := by
  refine decide_eq_false fun hlast => h ?_
  exact List.mem_of_getLast? hlast

/-- A line that is taken is the first one. -/
theorem lines_of_takeLine? (h : takeLine? bytes broken = some (line, rest)) :
    lines bytes = line :: lines rest ∧ isWhole broken line = true := by
  by_cases hfeed : lineFeed ∈ bytes
  · -- The first line feed ends the line.
    obtain ⟨before, after, rfl, hfree⟩ := List.eq_append_cons_of_mem hfeed
    rw [takeLine?_append_feed hfree] at h
    cases h
    exact ⟨lines_append_feed hfree rest, by simp [isWhole, isTerminated]⟩
  · rw [takeLine?_of_no_feed hfeed] at h
    split at h
    · cases h
    · rename_i hsome
      cases h
      rw [Bool.or_eq_true, not_or] at hsome
      obtain ⟨hne, hbroken⟩ := hsome
      refine ⟨lines_of_no_feed hfeed fun hnil => hne ?_, by simp [isWhole, hbroken]⟩
      rw [hnil]
      rfl

/-- If no line can be taken there is none, or a broken source has begun one and not ended it. -/
theorem lines_of_takeLine?_eq_none (h : takeLine? bytes broken = none) :
    ∀ line ∈ lines bytes, isWhole broken line = false := by
  by_cases hfeed : lineFeed ∈ bytes
  · obtain ⟨before, after, rfl, hfree⟩ := List.eq_append_cons_of_mem hfeed
    rw [takeLine?_append_feed hfree] at h
    cases h
  · cases bytes with
    | nil => exact List.forall_mem_nil _
    | cons b bytes =>
      rw [takeLine?_of_no_feed hfeed] at h
      split at h
      · rename_i hnone
        have hbroken : broken = true := hnone
        rw [lines_of_no_feed hfeed (List.cons_ne_nil b bytes), List.forall_mem_singleton]
        simp [isWhole, hbroken, isTerminated_of_no_feed hfeed]
      · cases h

/-! ## Answers -/

/-- The answers that a line has: one for each of its words, or a single one if it is not UTF-8. -/
def answersOf (line : List UInt8) : List (Except Fault Binary64) :=
  match Text.decode? line with
  | some text => (tokens text).map parse
  | none => [.error (.malformedNumber (String.ofList (Text.decodeLossy line)))]

/-- The lines that can be taken: all of them, or those that are terminated if the source is
    broken. -/
def wholeLines (input : Input) : List (List UInt8) :=
  (lines input.bytes).filter (isWhole input.defect.isSome)

/-- The answers that are still to come. -/
def stream (input : Input) : List (Except Fault Binary64) :=
  input.pending.map parse ++ input.wholeLines.flatMap answersOf

/-- The answer to a call when there is no line left. -/
def lastAnswer (input : Input) : Except Fault Binary64 :=
  .error (input.defect.elim .inputExhausted .io)

/-- A result in two parts: the answer to the call, and the input that it leaves. -/
def reply (answer : Except Fault Binary64) (left : Input) : EStateM.Result Fault Input Binary64 :=
  match answer with
  | .ok value => .ok value left
  | .error fault => .error fault left

/-- The answer to a call. -/
def answer (input : Input) : Except Fault Binary64 :=
  match input.readNumber with
  | .ok value _ => .ok value
  | .error fault _ => .error fault

/-- The input after a call. -/
def next (input : Input) : Input := input.readNumber.state

/-- The parts of a call's result are its answer and the input that it leaves. -/
theorem answer_of_reply {a : Except Fault Binary64} {left : Input}
    (h : input.readNumber = reply a left) : input.answer = a ∧ input.next = left := by
  rw [answer, next, h]
  cases a <;> exact ⟨rfl, rfl⟩

/-- The input after a number of calls. -/
def after (input : Input) (k : Nat) : Input := next^[k] input

/-! ## One call -/

/-- A word that waits is the answer to the next call. -/
theorem readNumber_of_word {token : String} {pending : List String}
    (h : input.pending = token :: pending) :
    input.readNumber = reply (parse token) { input with pending } := by
  rw [readNumber, h]
  simp only
  cases parse token <;> rfl

/-- Without a word that waits and without a line there is nothing left. -/
theorem readNumber_at_end (hp : input.pending = [])
    (h : takeLine? input.bytes input.defect.isSome = none) :
    input.readNumber = reply input.lastAnswer { input with bytes := [] } := by
  rw [readNumber, hp]
  simp only
  split
  · rfl
  · rename_i hsome
    rw [h] at hsome
    cases hsome

/-- Without a word that waits a line is taken. -/
theorem readNumber_of_line (hp : input.pending = [])
    (h : takeLine? input.bytes input.defect.isSome = some (line, rest)) :
    input.readNumber =
      match Text.decode? line with
      | none =>
        .error (.malformedNumber (String.ofList (Text.decodeLossy line)))
          { input with bytes := rest }
      | some text => readNumber { input with bytes := rest, pending := tokens text } := by
  rw [readNumber, hp]
  simp only
  split
  · rename_i hnone
    rw [h] at hnone
    cases hnone
  · rename_i hsome
    rw [h] at hsome
    cases hsome
    rfl

/-- A line that has no answers is passed over. -/
theorem readNumber_of_no_answers (hp : input.pending = [])
    (h : takeLine? input.bytes input.defect.isSome = some (line, rest))
    (hnone : answersOf line = []) :
    input.readNumber = { input with bytes := rest }.readNumber := by
  rw [readNumber_of_line hp h]
  rw [answersOf] at hnone
  cases hdecode : Text.decode? line with
  | none =>
    rw [hdecode] at hnone
    cases hnone
  | some text =>
    rw [hdecode] at hnone
    have htokens : tokens text = [] := List.map_eq_nil_iff.1 hnone
    simp only [htokens, ← hp]

/-- The first answer of a line is the answer to the call that takes it, and the others wait. -/
theorem readNumber_of_answers (hp : input.pending = [])
    (h : takeLine? input.bytes input.defect.isSome = some (line, rest))
    {a : Except Fault Binary64} {as : List (Except Fault Binary64)}
    (hsome : answersOf line = a :: as) :
    ∃ pending, pending.map parse = as ∧
      input.readNumber = reply a { input with bytes := rest, pending } := by
  rw [readNumber_of_line hp h]
  rw [answersOf] at hsome
  cases hdecode : Text.decode? line with
  | none =>
    rw [hdecode] at hsome
    cases hsome
    refine ⟨[], rfl, ?_⟩
    rw [← hp]
    rfl
  | some text =>
    rw [hdecode] at hsome
    obtain ⟨token, pending, htokens, rfl, hpending⟩ := List.map_eq_cons_iff.1 hsome
    refine ⟨pending, hpending, ?_⟩
    simp only [htokens]
    exact readNumber_of_word rfl

/-- A call gives a word that waits; or else, after lines without answers, the first answer of a
    line, of which the other words then wait; or else the last answer, if no line is left. -/
inductive Asked (input : Input) : Prop
  | word {token : String} {pending : List String} :
    input.pending = token :: pending →
    input.readNumber = reply (parse token) { input with pending } → Asked input
  | line {blank : List (List UInt8)} {line rest : List UInt8} {a : Except Fault Binary64}
      {pending : List String} :
    input.pending = [] → lines input.bytes = blank ++ line :: lines rest →
    (∀ l ∈ blank ++ [line], isWhole input.defect.isSome l = true) →
    (∀ l ∈ blank, answersOf l = []) → answersOf line = a :: pending.map parse →
    input.readNumber = reply a { input with bytes := rest, pending } → Asked input
  | nothing :
    input.stream = [] → input.readNumber = reply input.lastAnswer { input with bytes := [] } →
    Asked input

/-- Every call is one of these. -/
theorem asked (input : Input) : Asked input := by
  -- Every line that is passed over leaves fewer bytes.
  induction hlength : input.bytes.length using Nat.strongRecOn generalizing input with
  | ind length ih =>
    cases hp : input.pending with
    | cons token pending => exact .word hp (readNumber_of_word hp)
    | nil =>
      -- No word waits, so a line must be taken.
      cases ht : takeLine? input.bytes input.defect.isSome with
      | none =>
        refine .nothing ?_ (readNumber_at_end hp ht)
        -- The lines that are left, if any, cannot be taken.
        have hnone : input.wholeLines = [] :=
          List.filter_eq_nil_iff.2 fun line hmem => by
            rw [lines_of_takeLine?_eq_none ht line hmem]
            exact Bool.false_ne_true
        rw [stream, hp, hnone]
        rfl
      | some taken =>
        obtain ⟨line, rest⟩ := taken
        obtain ⟨hlines, hwhole⟩ := lines_of_takeLine? ht
        cases hanswers : answersOf line with
        | cons a as =>
          obtain ⟨pending, rfl, hread⟩ := readNumber_of_answers hp ht hanswers
          have hfirst : lines input.bytes = [] ++ line :: lines rest := hlines
          have hall : ∀ l ∈ [] ++ [line], isWhole input.defect.isSome l = true := by
            simpa using hwhole
          exact .line hp hfirst hall (List.forall_mem_nil _) hanswers hread
        | nil =>
          have hread := readNumber_of_no_answers hp ht hanswers
          have hless : rest.length < length := hlength ▸ length_of_takeLine? ht
          -- The line is passed over, so its bytes join those that were passed over after it.
          cases ih rest.length hless { input with bytes := rest } rfl with
          | word hword => exact nomatch hp.symm.trans hword
          | @line blank last rest' a pending _ hrest hall hblank hlast hreply =>
            have hfirst : lines input.bytes = (line :: blank) ++ last :: lines rest' := by
              rw [hlines]
              exact congrArg (line :: ·) hrest
            have hall' : ∀ l ∈ (line :: blank) ++ [last], isWhole input.defect.isSome l = true :=
              List.forall_mem_cons.2 ⟨hwhole, hall⟩
            have hblank' : ∀ l ∈ line :: blank, answersOf l = [] :=
              List.forall_mem_cons.2 ⟨hanswers, hblank⟩
            exact .line hp hfirst hall' hblank' hlast (hread.trans hreply)
          | nothing hstream hreply =>
            refine .nothing ?_ (hread.trans hreply)
            have hfirst : input.wholeLines = line :: { input with bytes := rest }.wholeLines := by
              rw [wholeLines, hlines, List.filter_cons_of_pos hwhole]
              rfl
            rw [stream, hfirst, List.flatMap_cons, hanswers]
            exact hstream

/-! ## All calls -/

/-- A call takes the first of the answers to come, or gives the last answer if there is none. -/
theorem stream_next (input : Input) :
    input.next.lastAnswer = input.lastAnswer ∧
      (input.stream = input.answer :: input.next.stream ∨
        input.stream = [] ∧ input.answer = input.lastAnswer ∧ input.next.stream = []) := by
  cases asked input with
  | word hp hread =>
    obtain ⟨hanswer, hnext⟩ := answer_of_reply hread
    rw [hanswer, hnext, stream, hp]
    exact ⟨rfl, .inl rfl⟩
  | @line blank line rest a pending hp hlines hwhole hblank hline hread =>
    obtain ⟨hanswer, hnext⟩ := answer_of_reply hread
    -- The lines that were passed over have no answers, so those of the line that was taken come
    -- first.
    have hall : input.wholeLines =
        blank ++ line :: { input with bytes := rest, pending }.wholeLines := by
      have hkept : (blank ++ [line]).filter (isWhole input.defect.isSome) = blank ++ [line] :=
        List.filter_eq_self.2 hwhole
      rw [wholeLines, hlines, List.append_cons, List.filter_append, hkept, ← List.append_cons]
      rfl
    have hnone : blank.flatMap answersOf = [] := List.flatMap_eq_nil_iff.2 hblank
    rw [hanswer, hnext, stream, hp, hall, List.flatMap_append, hnone, List.flatMap_cons, hline]
    exact ⟨rfl, .inl rfl⟩
  | nothing hstream hread =>
    obtain ⟨hanswer, hnext⟩ := answer_of_reply hread
    -- Without answers to come no word waits either.
    have hp : input.pending = [] := List.map_eq_nil_iff.1 (List.append_eq_nil_iff.1 hstream).1
    refine ⟨by rw [hnext]; rfl, .inr ⟨hstream, hanswer, ?_⟩⟩
    rw [hnext, stream, hp]
    rfl

/-- One call more comes last. -/
theorem after_succ (input : Input) (k : Nat) : input.after (k + 1) = (input.after k).next :=
  Function.iterate_succ_apply' ..

/-- The answers to the calls are the answers to come, one after the other, and after those the last
    answer every time. -/
theorem answer_after (input : Input) (k : Nat) :
    (input.after k).answer = (input.stream[k]?).getD input.lastAnswer := by
  -- The induction takes the first call off, which leaves the other answers to come.
  induction k generalizing input with
  | zero =>
    show input.answer = _
    rcases (stream_next input).2 with hstream | ⟨hstream, hanswer, -⟩
    · rw [hstream]
      rfl
    · rw [hstream, hanswer]
      rfl
  | succ k ih =>
    obtain ⟨hlast, hstream | ⟨hstream, -, hnext⟩⟩ := stream_next input
    · rw [hstream, List.getElem?_cons_succ, ← hlast]
      exact ih input.next
    · rw [hstream, ← hlast]
      have hrest := ih input.next
      rw [hnext] at hrest
      exact hrest

/-! ## What has been taken -/

/-- After a number of calls that had answers, lines have been taken whose answers are the ones that
    were given and those that wait, and the last of these lines has given one. -/
structure Taken (bytes : List UInt8) (given : Nat) (input : Input) (taken : List (List UInt8)) :
    Prop where
  lines_eq : lines bytes = taken ++ lines input.bytes
  count : (taken.flatMap answersOf).length = given + input.pending.length
  needed : taken = [] ∨ ∃ before line, taken = before ++ [line] ∧
    (before.flatMap answersOf).length < given

/-- A call that has an answer takes no line if a word waits, and otherwise no line beyond the one
    that the answer comes from. -/
theorem Taken.next {given : Nat} {taken : List (List UInt8)} (h : Taken bytes given input taken)
    (hmore : input.stream ≠ []) : ∃ taken, Taken bytes (given + 1) input.next taken := by
  obtain ⟨hlines, hcount, hneeded⟩ := h
  cases asked input with
  | @word token pending hp hread =>
    obtain ⟨-, hnext⟩ := answer_of_reply hread
    rw [hp, List.length_cons] at hcount
    -- No line is taken; one word fewer waits.
    refine ⟨taken, ?_, ?_, ?_⟩
    · rw [hlines, hnext]
    · rw [hnext, hcount]
      show _ = given + 1 + pending.length
      omega
    · rcases hneeded with rfl | ⟨before, line, rfl, hbefore⟩
      · exact .inl rfl
      · exact .inr ⟨before, line, rfl, by omega⟩
  | @line blank line rest a pending hp hrest hwhole hblank hline hread =>
    obtain ⟨-, hnext⟩ := answer_of_reply hread
    have hnone : blank.flatMap answersOf = [] := List.flatMap_eq_nil_iff.2 hblank
    rw [hp, List.length_nil, Nat.add_zero] at hcount
    -- Before the line that answers only lines without answers are taken.
    refine ⟨(taken ++ blank) ++ [line], ?_, ?_, .inr ⟨taken ++ blank, line, rfl, ?_⟩⟩
    · rw [hlines, hrest, hnext]
      simp
    · rw [List.flatMap_append, List.flatMap_append, hnone, List.append_nil, List.flatMap_singleton,
        List.length_append, hcount, hline, hnext]
      simp only [List.length_cons, List.length_map]
      omega
    · rw [List.flatMap_append, hnone, List.append_nil, hcount]
      exact Nat.lt_succ_self given
  | nothing hstream => contradiction

/-- Calls take as many of the answers to come. -/
theorem stream_after (input : Input) (k : Nat) :
    (input.after k).stream = input.stream.drop k := by
  -- As for the answers, the first call is taken off.
  induction k generalizing input with
  | zero => rfl
  | succ k ih =>
    have hrest : (input.after (k + 1)).stream = input.next.stream.drop k := ih input.next
    rw [hrest]
    rcases (stream_next input).2 with hstream | ⟨hstream, -, hnext⟩
    · rw [hstream, List.drop_succ_cons]
    · rw [hstream, hnext, List.drop_nil, List.drop_nil]

/-- As long as there are answers, lines are taken as they are needed. -/
theorem exists_taken (hp : input.pending = []) {k : Nat} (hk : k ≤ input.stream.length) :
    ∃ taken, Taken input.bytes k (input.after k) taken := by
  induction k with
  | zero =>
    have hnone : 0 + input.pending.length = 0 := by rw [hp]; rfl
    exact ⟨[], rfl, hnone.symm, .inl rfl⟩
  | succ k ih =>
    obtain ⟨taken, h⟩ := ih (Nat.le_of_lt hk)
    have hmore : (input.after k).stream ≠ [] := by
      rw [stream_after]
      intro hnil
      have hle := List.drop_eq_nil_iff.1 hnil
      omega
    rw [after_succ]
    exact h.next hmore

/-- The answers to the calls are those of the lines of the input, one after the other: for every
    word of a line the number that it denotes or the fault that it denotes none, and for a line that
    is not UTF-8 a single fault. A broken source gives only the lines that are terminated. After
    them every call gives the fault for want of input, or that of the source. When a call has
    given a number or a malformed one, the bytes that have been taken are the lines up to the one
    that this answer comes from. -/
theorem answers_by_lines (bytes : List UInt8) (defect : Option String) :
    let input : Input := { bytes, defect }
    let whole := (lines bytes).filter (isWhole defect.isSome)
    (∀ k, (input.after k).answer =
      ((whole.flatMap answersOf)[k]?).getD (.error (defect.elim .inputExhausted .io))) ∧
    ∀ k,
      (∃ value, (input.after k).answer = .ok value) ∨
        (∃ token, (input.after k).answer = .error (.malformedNumber token)) →
      ∃ before line rest, lines bytes = before ++ line :: rest ∧
        (before.flatMap answersOf).length ≤ k ∧
        k < ((before ++ [line]).flatMap answersOf).length ∧
        bytes = (before ++ [line]).flatten ++ (input.after (k + 1)).bytes := by
  intro input whole
  refine ⟨answer_after input, fun k hanswer => ?_⟩
  -- The last answer is neither a number nor a malformed one, so this one is of a line.
  have hk : k < input.stream.length := by
    by_contra hge
    have hlast : (input.after k).answer = .error (defect.elim .inputExhausted .io) := by
      rw [answer_after, List.getElem?_eq_none (by omega)]
      rfl
    rw [hlast] at hanswer
    cases defect <;> simp at hanswer
  have hnone : input.pending = [] := rfl
  obtain ⟨taken, hlines, hcount, hneeded⟩ := exists_taken hnone hk
  rcases hneeded with rfl | ⟨before, line, rfl, hbefore⟩
  · -- An answer was given, so at least one line has been taken.
    have hzero : 0 = k + 1 + (input.after (k + 1)).pending.length := hcount
    omega
  · have hbytes : input.bytes = bytes := rfl
    rw [hbytes] at hlines
    refine ⟨before, line, lines (input.after (k + 1)).bytes, ?_, by omega, by omega, ?_⟩
    · rw [hlines, List.append_assoc]
      rfl
    · calc bytes = (lines bytes).flatten := (flatten_lines bytes).symm
        _ = (before ++ [line]).flatten ++ (input.after (k + 1)).bytes := by
          rw [hlines, List.flatten_append, flatten_lines]

/-- A word that is no number on a line of its own: the call that gives it leaves the next line. -/
theorem answers_by_lines_of_bad_word :
    let input : Input := { bytes := [0x78, 0x0a, 0x38] }
    (input.after 0).answer = .error (.malformedNumber "x") ∧
      ∃ before line, input.bytes = (before ++ [line]).flatten ++ (input.after 1).bytes := by
  intro input
  obtain ⟨hanswers, htaken⟩ := answers_by_lines [0x78, 0x0a, 0x38] none
  have hwhole : (lines [0x78, 0x0a, 0x38]).filter (isWhole (none : Option String).isSome) =
      [[0x78, 0x0a], [0x38]] := by
    decide
  have hfirst : answersOf [0x78, 0x0a] = [.error (.malformedNumber "x")] := by
    have hdecode : Text.decode? [0x78, 0x0a] = some "x\n" := by decide +kernel
    have htokens : tokens "x\n" = ["x"] := by decide +kernel
    have hvalue : Binary64.ofText? "x" = none := by decide +kernel
    simp only [answersOf, hdecode, htokens, List.map_cons, List.map_nil, parse, hvalue]
  have hword : (input.after 0).answer = .error (.malformedNumber "x") := by
    have hzero := hanswers 0
    rw [hwhole, List.flatMap_cons, hfirst] at hzero
    exact hzero
  obtain ⟨before, line, rest, hlines, -, -, hbytes⟩ := htaken 0 (.inr ⟨"x", hword⟩)
  exact ⟨hword, before, line, hbytes⟩

end Fish.Input
