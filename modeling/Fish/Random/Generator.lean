import Fish.Pointer
import Fish.Random.ChaCha

/-!
# Random headings

The generator of random headings reads its ChaCha12 stream word by word. All that it remembers is
the key and how many words it has used, so the headings of a seed are one sequence, `headingAt`,
and every draw takes its next term.
-/

namespace Fish

/-- A source of random headings. -/
structure Generator where
  key : ChaCha.Key
  /-- How many headings were drawn so far. -/
  drawn : Nat := 0
deriving DecidableEq

namespace Generator

/-- The generator of a seed, before the first draw. -/
def ofSeed (seed : UInt64) : Generator := { key := .ofSeed seed }

/-- The heading that a word of the stream stands for: its two uppermost bits. -/
def headingOfWord (w : UInt32) : Heading :=
  match (w >>> 30).toNat with
  | 0 => .up
  | 1 => .right
  | 2 => .down
  | _ => .left

/-- The sequence of headings that belongs to a key. -/
def headingAt (key : ChaCha.Key) (n : Nat) : Heading := headingOfWord (ChaCha.word key n)

/-- Draws a heading. -/
def draw (g : Generator) : Heading × Generator :=
  (headingAt g.key g.drawn, { g with drawn := g.drawn + 1 })

end Generator

/-- Passes a mirror. The random one takes the next heading of the generator, whatever the heading
    was before; the others draw nothing. -/
def Pointer.passMirror (p : Pointer) (mirror : Mirror) (g : Generator) : Pointer × Generator :=
  match mirror with
  | .random => (p.turn g.draw.1, g.draw.2)
  | mirror => (p.reflect mirror, g)

end Fish
