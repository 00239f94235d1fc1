import Fish.Binary64.Decimal

/-!
# Numerals

The text of a number: an optional sign, digits with an optional point among or around them and at
least one digit, and then, optionally, an exponent of ten with an optional sign of its own. The
words `inf`, `infinity` and `nan`, in letters of either case and with an optional sign, are numerals
as well. `Binary64.ofText?` gives the value nearest to what the text denotes.
-/

namespace Fish

/-- A decimal with a sign of its own, so that a negative zero is not lost. -/
structure Numeral where
  negative : Bool
  decimal : Decimal
deriving DecidableEq, Repr

namespace Numeral

/-- Takes an optional sign off; the flag tells whether it is a minus. -/
def splitSign : List Char → Bool × List Char
  | '+' :: rest => (false, rest)
  | '-' :: rest => (true, rest)
  | rest => (false, rest)

/-- Takes the digits at the beginning off. -/
def splitDigits (cs : List Char) : List Char × List Char :=
  (cs.takeWhile Char.isDigit, cs.dropWhile Char.isDigit)

/-- Takes an optional point and the digits after it off. -/
def splitPlaces : List Char → List Char × List Char
  | '.' :: rest => splitDigits rest
  | rest => ([], rest)

/-- The number that a row of digits denotes. -/
def natOfDigits (digits : List Char) : Nat := Nat.ofDigitChars 10 digits 0

/-- The exponent written at the end of a numeral; nothing at all stands for zero. -/
def exponent? : List Char → Option Int
  | [] => some 0
  | mark :: rest =>
    let (negative, rest) := splitSign rest
    let (digits, rest) := splitDigits rest
    if (mark = 'e' ∨ mark = 'E') ∧ digits ≠ [] ∧ rest = [] then
      some (if negative then -(natOfDigits digits : Int) else natOfDigits digits)
    else none

/-- Reads a numeral made of digits. -/
def ofChars? (cs : List Char) : Option Numeral := do
  let (negative, rest) := splitSign cs
  let (whole, rest) := splitDigits rest
  let (places, rest) := splitPlaces rest
  -- A point alone is no number.
  guard (whole ++ places ≠ [])
  let exponent ← exponent? rest
  return ⟨negative, natOfDigits (whole ++ places), exponent - places.length⟩

/-- The value nearest to a numeral. -/
def toBinary64 (n : Numeral) : Binary64 := n.decimal.toBinary64 n.negative

end Numeral

namespace Binary64

/-- Reads one of the words for values that have no digits. -/
def ofWord? (cs : List Char) : Option Binary64 :=
  let (negative, word) := Numeral.splitSign cs
  match String.ofList (word.map Char.toLower) with
  | "inf" => some (.infinite negative)
  | "infinity" => some (.infinite negative)
  | "nan" => some .nan
  | _ => none

/-- The value nearest to what a text denotes; `none` if it is not a numeral. -/
def ofText? (text : String) : Option Binary64 :=
  match Numeral.ofChars? text.toList with
  | some numeral => some numeral.toBinary64
  | none => ofWord? text.toList

end Binary64

end Fish
