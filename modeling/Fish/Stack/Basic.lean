import Fish.Binary64.Arithmetic
import Fish.Fault

/-!
# Stacks

A stack of numbers with a register that holds one more. An operation that runs out of values
faults. `popN` and `topShift` take values one after the other, so their faults leave the stack
empty; `swap` and the two shifts look before they take.

The values are listed from the top, `Stack.values`; `Stack.ofList` and `Stack.toList` speak of
them from the bottom, the order in which they were pushed.
-/

namespace Fish

/-- A stack of numbers and its register. -/
@[ext] structure Stack where
  /-- The values, the top first. -/
  values : List Binary64 := []
  register : Option Binary64 := none
deriving DecidableEq

namespace Stack

/-- The stack of the given values, the bottom first, with nothing in its register. -/
def ofList (values : List Binary64) : Stack := { values := values.reverse }

/-- The values, the bottom first. -/
def toList (s : Stack) : List Binary64 := s.values.reverse

/-- The number of values; the register does not count. -/
def size (s : Stack) : Nat := s.values.length

/-- The value on top. -/
def top? (s : Stack) : Option Binary64 := s.values.head?

/-- A stack made of a list holds the values of the list. -/
@[simp] theorem toList_ofList (values : List Binary64) : (ofList values).toList = values := by
  simp [ofList, toList]

/-- Puts a value on top. -/
def push (value : Binary64) : Action Stack Unit :=
  modify fun s => { s with values := value :: s.values }

/-- Pushes the given values in order, so that the last one is on top. -/
def pushAll (values : List Binary64) : Action Stack Unit :=
  modify fun s => { s with values := values.reverse ++ s.values }

/-- Takes the value on top. -/
def pop : Action Stack Binary64 := fun s =>
  match s.values with
  | [] => .error (.stackUnderflow 1 0) s
  | value :: rest => .ok value { s with values := rest }

/-- Takes `n` values, the top first. If there are fewer they are all lost. -/
def popN (n : Nat) : Action Stack (List Binary64) := fun s =>
  if n ≤ s.size then .ok (s.values.take n) { s with values := s.values.drop n }
  else .error (.stackUnderflow n s.size) { s with values := [] }

/-- Takes all values, the top first. -/
def popAll : Action Stack (List Binary64) := fun s => .ok s.values { s with values := [] }

/-- Pushes the top value once more. -/
def duplicate : Action Stack Unit := fun s =>
  match s.values with
  | [] => .error (.stackUnderflow 1 0) s
  | x :: rest => .ok () { s with values := x :: x :: rest }

/-- Exchanges the two values on top. Nothing is taken if there are not two. -/
def swap : Action Stack Unit := fun s =>
  match s.values with
  | x :: y :: rest => .ok () { s with values := y :: x :: rest }
  | _ => .error (.stackUnderflow 2 s.size) s

/-- Moves the top value to the bottom. -/
def shiftRight : Action Stack Unit := fun s =>
  match s.values with
  | [] => .error (.stackUnderflow 1 0) s
  | x :: rest => .ok () { s with values := rest ++ [x] }

/-- Moves the bottom value to the top. -/
def shiftLeft : Action Stack Unit := fun s =>
  match s.values.getLast? with
  | none => .error (.stackUnderflow 1 0) s
  | some x => .ok () { s with values := x :: s.values.dropLast }

/-- Moves the top value below the two under it. The values are taken one after the other, so a
    stack with fewer than three loses them. -/
def topShift : Action Stack Unit := fun s =>
  match s.values with
  | x :: y :: z :: rest => .ok () { s with values := y :: z :: x :: rest }
  | _ => .error (.stackUnderflow 3 s.size) { s with values := [] }

/-- Turns the stack upside down. -/
def reverse : Action Stack Unit := modify fun s => { s with values := s.values.reverse }

/-- Removes all values; the register stays. -/
def clear : Action Stack Unit := modify fun s => { s with values := [] }

/-- Pushes the number of values. -/
def pushSize : Action Stack Unit := modify fun s => { s with values := .ofNat s.size :: s.values }

/-- Empties a full register onto the stack, or fills an empty one from the top. -/
def toggleRegister : Action Stack Unit := fun s =>
  match s.register, s.values with
  | some value, values => .ok () { values := value :: values, register := none }
  | none, value :: rest => .ok () { values := rest, register := some value }
  | none, [] => .error (.stackUnderflow 1 0) s

/-- How many values a count asks for, if there are that many: its whole part. A count below zero
    asks for something that no stack has, and `nan` asks for nothing. -/
def countWithin (count : Binary64) (available : Nat) : Option Nat :=
  match count with
  | .nan => some 0
  | .infinite _ => none
  | .finite negative units _ =>
    let whole := units / Binary64.unitsPerOne
    -- The sign is looked at before the fraction is dropped, so minus one half is below zero.
    if negative && units ≠ 0 then none
    else if whole ≤ available then some whole else none

/-- The greatest count that an underflow reports. -/
def greatestCount : Int := 0xffffffffffffffff

/-- Pops a count and moves that many values, in their order, into a stack of their own. -/
def splitOff : Action Stack Stack := fun s =>
  match s.values with
  | [] => .error (.stackUnderflow 1 0) s
  | count :: rest =>
    match countWithin count rest.length with
    | none =>
      -- The count is lost. A report has no number below zero, so it gives zero instead.
      .error (.stackUnderflow (count.toIntWithin 0 greatestCount).toNat rest.length)
        { s with values := rest }
    | some n => .ok { values := rest.take n } { s with values := rest.drop n }

/-- Puts all values of another stack on top, in their order. Its register is dropped with it. -/
def absorb (s child : Stack) : Stack := { s with values := child.values ++ s.values }

/-- The stacks have equal values in the same order and equal registers, as numbers are equal: no
    value that is not a number equals another. -/
def equals (s t : Stack) : Bool :=
  s.size = t.size && (s.values.zip t.values).all (fun (x, y) => x.equals y) &&
    match s.register, t.register with
    | none, none => true
    | some x, some y => x.equals y
    | _, _ => false

end Stack

end Fish
