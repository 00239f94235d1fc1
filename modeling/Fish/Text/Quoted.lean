import Fish.Text.Printable

/-!
# Quoted text

A text between quotation marks, in which everything that would not be seen as it is, or would end
the quotation, is written as an escape: the backslash, the mark itself, the control characters with
a letter of their own, and any other character without a mark of its own by its code point in
hexadecimal.
-/

namespace Fish.Text

/-- A character as it is written between the given marks. -/
def escape (mark c : Char) : List Char :=
  if c = '\\' ∨ c = mark then ['\\', c]
  else if c = '\n' then ['\\', 'n']
  else if c = '\r' then ['\\', 'r']
  else if c = '\t' then ['\\', 't']
  else if c = '\x00' then ['\\', '0']
  else if isPrintable c && !isExtender c then [c]
  else ['\\', 'u', '\x7b'] ++ Nat.toDigits 16 c.toNat ++ ['\x7d']

/-- A text between quotation marks. -/
def quoted (mark : Char) (cs : List Char) : String :=
  String.ofList (mark :: cs.flatMap (escape mark) ++ [mark])

end Fish.Text
