/-!
# The ChaCha12 key stream

An endless stream of words of 32 bits, determined by a key of eight words. The stream comes in
blocks of sixteen words; block `k` is the ChaCha permutation of a state that holds four constants,
the key and the number `k`, added to that state. Word `n` of the stream can be computed without
those before it: it is word `n % 16` of block `n / 16`.
-/

namespace Fish.ChaCha

/-- The key that selects a stream. -/
abbrev Key := Vector UInt32 8

/-- The sixteen words that the permutation works on. -/
abbrev State := Vector UInt32 16

/-- Turns the bits of a word to the left. -/
def rotateLeft (w n : UInt32) : UInt32 := (w <<< n) ||| (w >>> (32 - n))

/-- Adds word `b` of the state to word `a` and mixes the sum into word `c`, whose bits are then
    turned. -/
def mix (a b c : Nat) (turn : UInt32) (s : State) : State :=
  let s := s.setIfInBounds a (s.getD a 0 + s.getD b 0)
  s.setIfInBounds c (rotateLeft (s.getD c 0 ^^^ s.getD a 0) turn)

/-- Mixes four words of the state with each other. -/
def quarterRound (a b c d : Nat) (s : State) : State :=
  s |> mix a b d 16 |> mix c d b 12 |> mix a b d 8 |> mix c d b 7

/-- A round over the columns of the state and one over its diagonals. -/
def doubleRound (s : State) : State :=
  s |> quarterRound 0 4 8 12 |> quarterRound 1 5 9 13 |> quarterRound 2 6 10 14
    |> quarterRound 3 7 11 15 |> quarterRound 0 5 10 15 |> quarterRound 1 6 11 12
    |> quarterRound 2 7 8 13 |> quarterRound 3 4 9 14

/-- The state that block `k` begins with. -/
def initial (key : Key) (k : Nat) : State :=
  -- The constants are the characters `expand 32-byte k`, four to a word.
  let constants : Vector UInt32 4 := #v[0x61707865, 0x3320646e, 0x79622d32, 0x6b206574]
  -- The number of the block takes two words; the other two would tell streams of one key apart.
  let counter : Vector UInt32 4 := #v[.ofNat k, .ofNat (k >>> 32), 0, 0]
  constants ++ key ++ counter

/-- Block `k` of the stream, after twelve rounds. -/
def block (key : Key) (k : Nat) : State :=
  Vector.zipWith (· + ·) (Nat.repeat doubleRound 6 (initial key k)) (initial key k)

/-- The published blocks of the key of zeros: the first one, and the beginning of the second. -/
example :
    block (.replicate 8 0) 0 =
        #v[0x6a9af49b, 0x53f95507, 0x12ce1f81, 0xd583265f, 0xbbc32904, 0x1474e049, 0xa589007e,
          0x5f15ae2e, 0x79f86405, 0xc0e37ad2, 0x3428e82c, 0x798cfaac, 0x2c9f623a, 0x1969dea0,
          0x2fe80b61, 0xbe261341] ∧
      (block (.replicate 8 0) 1).toList.take 4 =
        [0x4188d50b, 0xfe743e20, 0x3371fc86, 0x3d17e08c] := by
  decide +kernel

/-- Word `n` of the stream. -/
def word (key : Key) (n : Nat) : UInt32 :=
  (block key (n / 16)).get ⟨n % 16, Nat.mod_lt n (by decide)⟩

/-! ## Keys from seeds -/

/-- One step of the linear congruence that stretches a seed. -/
def nextSeed (s : UInt64) : UInt64 := s * 6364136223846793005 + 11634580027462260723

/-- The word that a step yields: some of its upper bits, turned to the right by the uppermost. -/
def seedWord (s : UInt64) : UInt32 :=
  let bits := ((s >>> 18) ^^^ s) >>> 27
  -- A turn by 32 does nothing, for a shift by 32 is one by none.
  rotateLeft bits.toUInt32 ((32 : UInt32) - (s >>> 59).toUInt32)

/-- The key of a seed: the words of the first eight steps. -/
def Key.ofSeed (seed : UInt64) : Key :=
  Vector.ofFn fun i => seedWord (Nat.repeat nextSeed (i + 1) seed)

/-- The key of the seed zero. -/
example : Key.ofSeed 0 =
    #v[0xf973f2ec, 0x45cdb581, 0x7346f087, 0xad6cad06, 0xe3a3d0d0, 0x67e71733, 0x72ea9bf2,
      0xfe7d8ad7] := by
  decide +kernel

end Fish.ChaCha
