import Fish.Binary64.Basic

/-!
# Decimal text

A decimal is a natural number times a power of ten. `Decimal.toBinary64` rounds one to the nearest
value of the format. `Decimal.shortest` goes the other way: of all decimals that round to a given
number of units it takes one with the fewest digits, and of those the nearest to the exact value, a
tie going up. `Binary64.text` writes that decimal out in positions, never with an exponent.

The exact value of every number of units has a decimal with 1074 places, because
`2 ^ -1074 = 5 ^ 1074 * 10 ^ -1074`. The search for the shortest one starts on a grid coarser than
the value and refines it by one place at a time; on the finest grid the exact value itself is left,
so the search always ends with a decimal that reads back.
-/

namespace Fish

/-- The number `digits * 10 ^ exponent`. -/
structure Decimal where
  digits : Nat
  exponent : Int
deriving DecidableEq, Repr

namespace Decimal

/-- The numerator of a decimal, counted in units. -/
def num (d : Decimal) : Nat := d.digits * Nat.pow 10 d.exponent.toNat * Binary64.unitsPerOne

/-- The denominator of a decimal. -/
def den (d : Decimal) : Nat := Nat.pow 10 (-d.exponent).toNat

/-- The number of units nearest to a decimal, the limit of the format aside. -/
def units (d : Decimal) : Nat := Binary64.roundUnits d.num d.den

/-- The decimal is so large that it is beyond the format whatever its digits are. -/
def isHuge (d : Decimal) : Bool := d.digits ≠ 0 && 400 < d.exponent

/-- The decimal is so small that it is nearest to zero: there are not enough digits to make up for
    its exponent, each place of which is worth more than three bits. -/
def isTiny (d : Decimal) : Bool := (d.digits.log2 + 1080 : Int) < 3 * -d.exponent

/-- The value nearest to a decimal, with the given sign. Exponents far out of the range of the
    format are settled without their power of ten. -/
def toBinary64 (negative : Bool) (d : Decimal) : Binary64 :=
  if d.digits = 0 || d.isTiny then .ofRatio negative 0 1
  else if d.isHuge then .infinite negative
  else .ofRatio negative d.num d.den

/-! ## The shortest decimal -/

/-- The decimal with `places` places less than 1074, that is, on the grid `10 ^ (places - 1074)`. -/
def onGrid (digits places : Nat) : Decimal := ⟨digits, places - 1074⟩

/-- The exact decimal digits of a number of units, with 1074 places. The constant is the first
    factor: a product is computed by recursion on the second one. -/
def exactDigits (units : Nat) : Nat := Nat.pow 5 1074 * units

/-- Of the two neighbours of a value on a grid, those that read back, the nearer one first; of two
    at the same distance the upper one comes first. -/
def candidates (units places : Nat) : List Nat :=
  let grid := Nat.pow 10 places
  let low := exactDigits units / grid
  let order := if 2 * (exactDigits units % grid) < grid then [low, low + 1] else [low + 1, low]
  order.filter fun digits => (onGrid digits places).units = units

/-- The first grid, from the given one to finer ones, that has a decimal which reads back. -/
def shortestFrom (units : Nat) : Nat → Decimal
  -- The finest grid has the exact value itself, which reads back in any case.
  | 0 => onGrid (exactDigits units) 0
  | places + 1 =>
    match candidates units (places + 1) with
    | digits :: _ => onGrid digits (places + 1)
    | [] => shortestFrom units places

/-- An upper bound for the number of decimal digits of a number: every bit is worth less than
    0.30103 digits. -/
def digitsBound (n : Nat) : Nat := (n.log2 + 1) * 30103 / 100000 + 1

/-- The shortest decimal that reads back as the given number of units. -/
def shortest (units : Nat) : Decimal :=
  shortestFrom units (digitsBound (exactDigits units))

/-! ## Positional text -/

/-- The digits of the whole part. -/
def wholeText (d : Decimal) : List Char :=
  Nat.toDigits 10 (d.digits * Nat.pow 10 d.exponent.toNat / d.den)

/-- The places after the point, without trailing zeros. -/
def placesText (d : Decimal) : List Char :=
  let count := (-d.exponent).toNat
  let digits := Nat.toDigits 10 (d.digits % d.den)
  -- The digits of the rest stand at the end of the places, and zeros in front of them.
  let padded := List.replicate (count - digits.length) '0' ++ digits
  (padded.reverse.dropWhile (· = '0')).reverse

/-- The decimal written in positions; the point is there only if a digit follows it. -/
def text (d : Decimal) : List Char :=
  match d.placesText with
  | [] => d.wholeText
  | places => d.wholeText ++ '.' :: places

end Decimal

namespace Binary64

/-- The text of a value: the shortest decimal that reads back, written in positions. Both zeros are
    written without a sign. -/
def text : Binary64 → String
  | nan => "NaN"
  | infinite negative => if negative then "-inf" else "inf"
  | finite negative units _ =>
    if units = 0 then "0"
    else String.ofList ((if negative then ['-'] else []) ++ (Decimal.shortest units).text)

end Binary64

end Fish
