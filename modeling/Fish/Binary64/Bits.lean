import Fish.Binary64.Basic

/-!
# The interchange format

A value as a word of 64 bits: the sign, eleven bits of exponent, and the 52 bits of the significand
after its leading one. `nan` is written as the quiet one without payload, and every pattern of a
`nan` is read as `nan`.
-/

namespace Fish.Binary64

/-- The bits of a magnitude. The exponent field counts the bits beyond 53, and the leading one of
    the significand adds one to it. -/
def magnitudeBits (units : Nat) : Nat :=
  let shift := units.log2 - 52
  (shift <<< 52) + (units >>> shift)

/-- The word of a value. -/
def toBits : Binary64 → Nat
  | nan => 0x7ff8000000000000
  | infinite a => (a.toNat <<< 63) + 0x7ff0000000000000
  | finite a u _ => (a.toNat <<< 63) + magnitudeBits u

/-- The value of a word; bits beyond the 64 lowest are not looked at. -/
def ofBits (word : Nat) : Binary64 :=
  let negative := word.testBit 63
  let exponent := (word >>> 52) % 0x800
  let fraction := word % 0x10000000000000
  if exponent = 0x7ff then if fraction = 0 then infinite negative else nan
  else if exponent = 0 then ofRatio negative fraction 1
  else ofRatio negative ((0x10000000000000 + fraction) <<< (exponent - 1)) 1

end Fish.Binary64
