import Fish.Binary64.Decimal
import Fish.Fault
import Fish.Text.Utf8

/-!
# Output

Where a program writes its characters and numbers. An output may have room for a limited number of
bytes only, and then refuses a write that does not fit as a whole; and it may be unable to flush.
What was written is never changed afterwards.
-/

namespace Fish

/-- The output of a program. -/
structure Output where
  /-- What was written so far. -/
  text : String := ""
  /-- How many bytes the output has room for, if that is limited. -/
  capacity : Option Nat := none
  /-- What prevents flushing, if anything does. -/
  flushDefect : Option String := none
deriving DecidableEq

namespace Output

/-- There is room for a text after what was written. -/
def hasRoom (out : Output) (s : String) : Bool :=
  match out.capacity with
  | none => true
  | some capacity => out.text.utf8ByteSize + s.utf8ByteSize ≤ capacity

/-- Writes a text, or nothing of it if there is no room. -/
def write (s : String) : Action Output Unit := fun out =>
  if out.hasRoom s then .ok () { out with text := out.text ++ s }
  else .error (.io "sink full") out

/-- Makes sure that all is written. -/
def flush : Action Output Unit := fun out =>
  match out.flushDefect with
  | none => .ok () out
  | some reason => .error (.io reason) out

end Output

/-- The character that a value stands for: the one whose code point is its whole part. The
    replacement character stands for all values that have none, those below zero included. -/
def Binary64.toChar : Binary64 → Char
  | finite negative units _ =>
    let code := units / unitsPerOne
    -- As for counts, the sign is looked at before the fraction is dropped.
    if (negative && units ≠ 0) || !code.isValidChar then Text.replacementChar else Char.ofNat code
  | _ => Text.replacementChar

/-- The code point of a character stands for that character. -/
@[simp] theorem Binary64.toChar_ofNat_toNat (c : Char) : (ofNat c.toNat).toChar = c := by
  have hcode : c.toNat < 0x110000 := by
    have hvalid := c.valid
    simp only [UInt32.isValidChar, Nat.isValidChar] at hvalid
    show c.val.toNat < 0x110000
    omega
  have hvalid : c.toNat.isValidChar := c.valid
  rw [ofNat_of_le (Nat.le_trans (Nat.le_of_lt hcode) (by decide)), toChar]
  simp [Nat.mul_div_cancel _ unitsPerOne_pos, hvalid]

end Fish
