import Fish.Heading

/-!
# Instructions

What a cell of the program tells the machine to do. The instructions are grouped by the part of
the machine that they work on: `StackCommand` holds those that rearrange the tower of stacks,
`Operator` those that replace two numbers by one, and the others stand for themselves.
-/

namespace Fish

/-- The operations that replace the two numbers on top by one. -/
inductive Operator
  | add
  | sub
  | mul
  | div
  | mod
  | eq
  | lt
  | gt
deriving DecidableEq, Repr

/-- The instructions that only rearrange the stacks and their registers. -/
inductive StackCommand
  | duplicate
  | remove
  | swap
  /-- The top value goes below the two under it. -/
  | topShift
  /-- The top value goes to the bottom. -/
  | shiftRight
  /-- The bottom value comes to the top. -/
  | shiftLeft
  | reverse
  | length
  /-- Splits a new stack off the active one. -/
  | openStack
  /-- Merges the active stack into the one below. -/
  | closeStack
  | register
deriving DecidableEq, Repr

/-- The meaning of a cell. -/
inductive Instruction
  | turn (heading : Heading)
  | mirror (mirror : Mirror)
  /-- The next cell is passed over. -/
  | skip
  /-- The next cell is passed over if the value on top is zero. -/
  | skipIfZero
  | jump
  | digit (value : Fin 16)
  | operator (op : Operator)
  /-- Opens or closes a run of cells that are pushed instead of executed. -/
  | quote
  | stack (command : StackCommand)
  | writeChar
  | writeNumber
  | readNumber
  | peek
  | poke
  | halt
  | blank
  | endOfLine
  | endOfInput
deriving DecidableEq, Repr

namespace Instruction

/-- The instruction that a character stands for. Both quotation marks open and close a literal
    run; a character without a meaning of its own is a blank. -/
def ofChar : Char → Instruction
  -- The way of the pointer.
  | '>' => .turn .right
  | '<' => .turn .left
  | 'v' => .turn .down
  | '^' => .turn .up
  | '/' => .mirror .forward
  | '\\' => .mirror .backward
  | '|' => .mirror .vertical
  | '_' => .mirror .horizontal
  | '#' => .mirror .reverse
  | 'x' => .mirror .random
  | '!' => .skip
  | '?' => .skipIfZero
  | '.' => .jump
  -- Values, and what is worked out from them.
  | '0' => .digit 0
  | '1' => .digit 1
  | '2' => .digit 2
  | '3' => .digit 3
  | '4' => .digit 4
  | '5' => .digit 5
  | '6' => .digit 6
  | '7' => .digit 7
  | '8' => .digit 8
  | '9' => .digit 9
  | 'a' => .digit 10
  | 'b' => .digit 11
  | 'c' => .digit 12
  | 'd' => .digit 13
  | 'e' => .digit 14
  | 'f' => .digit 15
  | '+' => .operator .add
  | '-' => .operator .sub
  | '*' => .operator .mul
  | ',' => .operator .div
  | '%' => .operator .mod
  | '=' => .operator .eq
  | '(' => .operator .lt
  | ')' => .operator .gt
  | '\'' => .quote
  | '"' => .quote
  -- The stacks.
  | ':' => .stack .duplicate
  | '~' => .stack .remove
  | '$' => .stack .swap
  | '@' => .stack .topShift
  | '\x7d' => .stack .shiftRight
  | '\x7b' => .stack .shiftLeft
  | 'r' => .stack .reverse
  | 'l' => .stack .length
  | '[' => .stack .openStack
  | ']' => .stack .closeStack
  | '&' => .stack .register
  -- The world outside, the values that lie over the cells, and the end.
  | 'o' => .writeChar
  | 'n' => .writeNumber
  | 'i' => .readNumber
  | 'g' => .peek
  | 'p' => .poke
  | ';' => .halt
  | '\n' => .endOfLine
  | _ => .blank

/-- The line feed, and nothing else, ends a line. -/
theorem ofChar_eq_endOfLine_iff {c : Char} : ofChar c = .endOfLine ↔ c = '\n' := by
  constructor
  · intro h
    unfold ofChar at h
    split at h <;> first | rfl | cases h
  · rintro rfl
    rfl

/-- No character ends the input: only the end of the text does. -/
theorem ofChar_ne_endOfInput (c : Char) : ofChar c ≠ .endOfInput := by
  unfold ofChar
  split <;> exact nofun

end Instruction

/-! ## Names

The names by which fault messages speak of instructions. -/

/-- The name of a mirror. -/
def Mirror.name : Mirror → String
  | forward => "Forward"
  | backward => "Backward"
  | vertical => "Vertical"
  | horizontal => "Horizontal"
  | reverse => "Reverse"
  | random => "Random"

/-- The name of an operator. -/
def Operator.name : Operator → String
  | add => "Add"
  | sub => "Sub"
  | mul => "Mul"
  | div => "Div"
  | mod => "Mod"
  | eq => "Eq"
  | lt => "Lt"
  | gt => "Gt"

/-- The name of a stack command. -/
def StackCommand.name : StackCommand → String
  | duplicate => "Duplicate"
  | remove => "Remove"
  | swap => "Swap"
  | topShift => "TopShift"
  | shiftRight => "RShift"
  | shiftLeft => "LShift"
  | reverse => "Reverse"
  | length => "Length"
  | openStack => "NewStack"
  | closeStack => "Consume"
  | register => "Register"

/-- The name of a heading. -/
def Heading.name : Heading → String
  | up => "Up"
  | right => "Right"
  | down => "Down"
  | left => "Left"

/-- The name of an instruction; a mirror or digit is named with its kind or value. -/
def Instruction.name : Instruction → String
  | turn heading => heading.name
  | mirror kind => s!"Mirror({kind.name})"
  | skip => "Skip"
  | skipIfZero => "SkipIf"
  | jump => "Jump"
  | digit value => s!"Digit({value.val})"
  | operator op => op.name
  | quote => "Quote"
  | stack command => command.name
  | writeChar => "OutputChar"
  | writeNumber => "OutputNum"
  | readNumber => "ReadNum"
  | peek => "Peek"
  | poke => "Poke"
  | halt => "Halt"
  | blank => "Whitespace"
  | endOfLine => "EndOfLine"
  | endOfInput => "EndOfInput"

end Fish
