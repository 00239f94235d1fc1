/-!
# UTF-8

Bytes as text. `decode?` accepts well-formed UTF-8 only. `decodeLossy` makes a text of any bytes:
what is well-formed gives its characters, and every longest beginning of a sequence that goes wrong,
or a byte that can begin none, gives one replacement character. Only sequences that are the
shortest for their character, and of a character that is no surrogate, are well-formed, which the
range of the second byte decides.
-/

namespace Fish.Text

/-- The character that stands for what is no character. -/
def replacementChar : Char := '\ufffd'

/-- The text that bytes encode; `none` if they are not well-formed UTF-8. -/
def decode? (bytes : List UInt8) : Option String := String.fromUTF8? bytes.toByteArray

/-- What a sequence of bytes needs after the first one. -/
structure Tail where
  /-- How many bytes follow. -/
  count : Nat
  /-- The least byte that may follow directly. -/
  least : UInt8 := 0x80
  /-- The greatest byte that may follow directly. -/
  greatest : UInt8 := 0xbf
  /-- The part of the code point that the first byte holds. -/
  high : Nat

/-- What a byte needs after it, if it can begin a sequence. -/
def tail? (first : UInt8) : Option Tail :=
  if first ≤ 0x7f then some { count := 0, high := first.toNat }
  else if 0xc2 ≤ first ∧ first ≤ 0xdf then some { count := 1, high := first.toNat - 0xc0 }
  -- The second byte is restricted where a shorter form would do, at the surrogates, and beyond the
  -- last code point.
  else if 0xe0 ≤ first ∧ first ≤ 0xef then
    some { count := 2, least := if first = 0xe0 then 0xa0 else 0x80,
           greatest := if first = 0xed then 0x9f else 0xbf, high := first.toNat - 0xe0 }
  else if 0xf0 ≤ first ∧ first ≤ 0xf4 then
    some { count := 3, least := if first = 0xf0 then 0x90 else 0x80,
           greatest := if first = 0xf4 then 0x8f else 0xbf, high := first.toNat - 0xf0 }
  else none

/-- The bytes that continue a sequence: at most as many as it needs, up to the first that does not
    fit. -/
def continuation (least greatest : UInt8) : Nat → List UInt8 → List UInt8
  | 0, _ => []
  | _, [] => []
  | n + 1, b :: rest =>
    if least ≤ b ∧ b ≤ greatest then b :: continuation 0x80 0xbf n rest else []

/-- The code point whose high part is given and whose further bits are the low six of each byte. -/
def codePoint (high : Nat) (bytes : List UInt8) : Nat :=
  bytes.foldl (fun n b => n * 64 + b.toNat % 64) high

/-- The text of any bytes, with replacement characters for what is not well-formed. -/
def decodeLossy (bytes : List UInt8) : List Char :=
  match bytes with
  | [] => []
  | first :: rest =>
    match tail? first with
    | none => replacementChar :: decodeLossy rest
    | some t =>
      -- The byte at which a sequence goes wrong is not part of it, and may begin another one.
      let taken := continuation t.least t.greatest t.count rest
      (if taken.length = t.count then Char.ofNat (codePoint t.high taken) else replacementChar)
        :: decodeLossy (rest.drop taken.length)
termination_by bytes.length
decreasing_by
  · simp
  · simp only [List.length_drop, List.length_cons]
    omega

end Fish.Text
