import Fish.Binary64.Basic

/-!
# Arithmetic

The operations of IEEE 754 on `Binary64`, each as the exact result rounded once. A result that is
exactly zero takes its sign from the operands: a sum of zeros is negative only if both are, a sum
that cancels is positive, and the sign of a product or quotient is negative if the operands'
signs differ.
-/

namespace Fish.Binary64

/-- The opposite value; `nan` has none and stays. -/
def neg : Binary64 → Binary64
  | nan => nan
  | infinite negative => infinite (!negative)
  | finite negative units h => finite (!negative) units h

/-- A signed number of units. -/
def signed (negative : Bool) (units : Nat) : Int := if negative then -units else units

/-- A sign may be given before a product is formed. -/
theorem signed_mul (a : Bool) (n grain : Nat) : signed a (n * grain) = signed a n * grain := by
  cases a with
  | false => exact Int.natCast_mul n grain
  | true =>
    simp only [signed, if_true]
    rw [Int.natCast_mul, Int.neg_mul]

/-- The sum. Opposite infinities have none. -/
def add : Binary64 → Binary64 → Binary64
  | nan, _ => nan
  | _, nan => nan
  | infinite a, infinite b => if a = b then infinite a else nan
  | infinite a, finite .. => infinite a
  | finite .., infinite b => infinite b
  | finite a u _, finite b v _ =>
    let sum := signed a u + signed b v
    -- A sum of zero has a minus only if both terms have one.
    ofRatio (if sum = 0 then a && b else sum < 0) sum.natAbs 1

/-- The difference. -/
def sub (x y : Binary64) : Binary64 := add x (neg y)

/-- The product. Zero times an infinity has none. -/
def mul : Binary64 → Binary64 → Binary64
  | nan, _ => nan
  | _, nan => nan
  | infinite a, infinite b => infinite (a ^^ b)
  | infinite a, finite b v _ => if v = 0 then nan else infinite (a ^^ b)
  | finite a u _, infinite b => if u = 0 then nan else infinite (a ^^ b)
  | finite a u _, finite b v _ => ofRatio (a ^^ b) (u * v) unitsPerOne

/-- The quotient. Zero by zero and infinity by infinity have none; any other value by zero is
    infinite. -/
def div : Binary64 → Binary64 → Binary64
  | nan, _ => nan
  | _, nan => nan
  | infinite _, infinite _ => nan
  | infinite a, finite b _ _ => infinite (a ^^ b)
  | finite a _ _, infinite b => ofRatio (a ^^ b) 0 1
  | finite a u _, finite b v _ =>
    if v = 0 then if u = 0 then nan else infinite (a ^^ b)
    else ofRatio (a ^^ b) (u * unitsPerOne) v

/-- The greatest whole number that is not above the value; the sign of a zero is kept. -/
def floor : Binary64 → Binary64
  | nan => nan
  | infinite a => infinite a
  | finite a u _ =>
    -- Below zero a fraction leads away from zero.
    let whole := u / unitsPerOne + if a && u % unitsPerOne ≠ 0 then 1 else 0
    ofRatio a (whole * unitsPerOne) 1

/-- The remainder that goes with the floored quotient, each operation rounded by itself. -/
def mod (x y : Binary64) : Binary64 := sub x (mul y (floor (div x y)))

/-- The values are numbers and equal; the zeros are equal to each other. -/
def equals : Binary64 → Binary64 → Bool
  | infinite a, infinite b => a = b
  | finite a u _, finite b v _ => signed a u = signed b v
  | _, _ => false

/-- The values are numbers and the first is less. -/
def less : Binary64 → Binary64 → Bool
  | nan, _ => false
  | _, nan => false
  | infinite a, infinite b => a && !b
  | infinite a, finite .. => a
  | finite .., infinite b => !b
  | finite a u _, finite b v _ => signed a u < signed b v

/-- One for a statement that holds, zero for one that does not. -/
def ofBool (b : Bool) : Binary64 := ofNat b.toNat

end Fish.Binary64
