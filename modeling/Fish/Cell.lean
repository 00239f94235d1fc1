import Fish.Instruction

/-!
# Cells and source text

A cell is a character of the program together with the instruction that it stands for.
`SourceText` is a text that is read cell by cell: a carriage return right before a line feed
belongs to the line break and makes no cell of its own, and after the last character comes one
cell that marks the end of the input. After that there is nothing more to read.

Main lemmas:

* `SourceText.cells_of_next?`   the cells of a text are its first cell and those of the rest
* `SourceText.next?_ended`      nothing follows the end of the input
-/

namespace Fish

/-- A cell of the program. -/
@[ext] structure Cell where
  instruction : Instruction
  glyph : Char
deriving DecidableEq, Repr

namespace Cell

/-- The cell that a character makes. -/
def ofChar (c : Char) : Cell := ⟨.ofChar c, c⟩

/-- The cell that fills up short rows. -/
def blank : Cell := .ofChar ' '

/-- The mark after the last character of a text. -/
def endOfInput : Cell := ⟨.endOfInput, '\x00'⟩

end Cell

/-- A text that is read cell by cell. -/
structure SourceText where
  /-- The characters still to be read. -/
  rest : List Char
  /-- The mark of the end has been read as well. -/
  ended : Bool := false
deriving DecidableEq, Repr

namespace SourceText

/-- A text before anything is read of it. -/
def ofString (s : String) : SourceText := { rest := s.toList }

/-- The next cell and what remains after it. -/
def next? (s : SourceText) : Option (Cell × SourceText) :=
  if s.ended then none
  else match s.rest with
    | [] => some (.endOfInput, { s with ended := true })
    -- Both halves of the break are read, and the cell shows the second.
    | '\r' :: '\n' :: rest => some (.ofChar '\n', { s with rest })
    | c :: rest => some (.ofChar c, { s with rest })

/-- How much there is still to read, the mark of the end counted. -/
def remaining (s : SourceText) : Nat := if s.ended then 0 else s.rest.length + 1

/-- Reading uses up text. -/
theorem remaining_of_next? {s t : SourceText} {c : Cell} (h : s.next? = some (c, t)) :
    t.remaining < s.remaining := by
  unfold next? at h
  split at h
  · cases h
  · split at h <;> cases h <;> simp_all [remaining]

/-- All cells that are still to be read, in order. -/
def cells (s : SourceText) : List Cell :=
  match _h : s.next? with
  | none => []
  | some (c, t) => c :: t.cells
termination_by s.remaining
decreasing_by exact remaining_of_next? _h

/-- The cells of a text are its first one and those of the rest. -/
theorem cells_of_next? (s : SourceText) :
    s.cells = (s.next?.map fun (c, t) => c :: t.cells).getD [] := by
  rw [cells]
  split <;> simp_all

/-- Nothing can be read after the end of the input. -/
theorem next?_ended {s : SourceText} (h : s.ended = true) : s.next? = none := by
  simp [next?, h]

end SourceText

end Fish
