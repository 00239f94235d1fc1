import Fish.Binary64.Numeral
import Fish.Fault
import Fish.Text.Blank
import Fish.Text.Utf8

/-!
# Numbers from the input

The input is a sequence of bytes, which is taken line by line and only when a number is asked for.
Every word of a line is one answer: the number that it denotes, or the fault that it denotes none.
A line that is not UTF-8 is a single answer, a fault. The words of a line that were not asked for
yet wait for the next call, so an answer is never lost, even after a fault.

A source may break instead of ending. Then a last line without a line feed is lost, and asking for
more gives the fault of the source.
-/

namespace Fish

/-- The input of a program. -/
structure Input where
  /-- The bytes that were not taken yet. -/
  bytes : List UInt8 := []
  /-- The words of the line that was taken last which were not asked for yet. -/
  pending : List String := []
  /-- What is wrong with a source that breaks after its bytes instead of ending. -/
  defect : Option String := none
deriving DecidableEq

namespace Input

/-- The input of the given bytes. -/
def ofBytes (bytes : List UInt8) : Input := { bytes }

/-- The byte that ends a line. -/
def lineFeed : UInt8 := 10

/-- Takes the first line, its line feed included. There is none at the end of the bytes, and in a
    broken source there is none without a line feed. -/
def takeLine? (bytes : List UInt8) (broken : Bool) : Option (List UInt8 × List UInt8) :=
  let line := bytes.takeWhile (· ≠ lineFeed)
  match bytes.dropWhile (· ≠ lineFeed) with
  | [] => if line.isEmpty || broken then none else some (line, [])
  | feed :: rest => some (line ++ [feed], rest)

/-- Taking a line leaves less. -/
theorem length_of_takeLine? {bytes line rest : List UInt8} {broken : Bool}
    (h : takeLine? bytes broken = some (line, rest)) : rest.length < bytes.length := by
  simp only [takeLine?] at h
  split at h
  · split at h
    · cases h
    · cases h
      -- Without a line feed all bytes are taken, of which there are some.
      cases bytes with
      | nil => simp_all
      | cons => simp
  · rename_i hdrop
    cases h
    have := (List.dropWhile_sublist (· ≠ lineFeed) (l := bytes)).length_le
    rw [hdrop, List.length_cons] at this
    omega

/-- The words of a text. -/
def tokens (text : String) : List String := (Text.words text.toList).map String.ofList

/-- The number that a word denotes. A number of the input is finite. -/
def parse (token : String) : Except Fault Binary64 :=
  match Binary64.ofText? token with
  | some value => if value.isFinite then .ok value else .error (.malformedNumber token)
  | none => .error (.malformedNumber token)

/-- The next number of the input. -/
def readNumber (input : Input) : EStateM.Result Fault Input Binary64 :=
  match input.pending with
  | token :: pending =>
    match parse token with
    | .ok value => .ok value { input with pending }
    -- A word without a number is used up too, so the next call goes on after it.
    | .error fault => .error fault { input with pending }
  | [] =>
    match _h : takeLine? input.bytes input.defect.isSome with
    | none =>
      -- A broken source loses the line that it has begun.
      .error (input.defect.elim .inputExhausted .io) { input with bytes := [] }
    | some (line, bytes) =>
      match Text.decode? line with
      | none =>
        .error (.malformedNumber (String.ofList (Text.decodeLossy line))) { input with bytes }
      -- There may be no word in the line, and then the next one is taken.
      | some text => readNumber { input with bytes, pending := tokens text }
termination_by input.bytes.length
decreasing_by exact length_of_takeLine? _h

/-- Appends bytes that have arrived since. -/
def append (input : Input) (bytes : List UInt8) : Input :=
  { input with bytes := input.bytes ++ bytes }

/-- There is no number, good or bad, in what has arrived so far. -/
def isExhausted (input : Input) : Bool :=
  match readNumber input with
  | .error .inputExhausted _ => true
  | _ => false

end Input

end Fish
