/-!
# Pseudo-random choices

Choices are drawn from a source. It gives a number below a bound, or exchanges
that bring so many entries into a random order, and the state for the next draw.
The analysis itself uses nothing else of a source, so what is proved of it holds
for every source.

The source that runs is a permuted congruential generator with 128 bits of
state: each step multiplies and adds modulo `2 ^ 128`, and a number of 64 bits is
mixed out of the two halves of the state. A number below a bound that is a power
of two is a mask of such a number; for another bound it is the upper half of a
128-bit product, and the few products that would make some numbers likelier than
others are drawn again. Entries are shuffled from the last to the second: each is
exchanged with one drawn from those up to it.
-/

set_option autoImplicit false

namespace CapLiveness

/-- A source of choices with states of type `σ`. Each draw also gives the next
state. -/
structure Source (σ : Type) where
  /-- A number below a bound. -/
  below : Nat → σ → Nat × σ
  /-- The exchanges of positions that shuffle a number of entries, in order. -/
  swaps : Nat → σ → List (Nat × Nat) × σ

/-- The state of the generator. -/
structure Generator where
  state : Nat
deriving DecidableEq

namespace Generator

/-- The number of words of 64 bits. -/
def words : Nat := 1 <<< 64

/-- The factor of a step. -/
def multiplier : Nat := 2549297995355413924 * words + 4865540595714422341

/-- The summand of a step. -/
def increment : Nat := 6364136223846793005 * words + 1442695040888963407

/-- The generator whose state has the given halves. -/
def ofHalves (high low : UInt64) : Generator := ⟨high.toNat * words + low.toNat⟩

/-- The generator of a seed. -/
def ofSeed (seed : UInt64) : Generator := ofHalves seed (seed ^^^ 0x9e3779b97f4a7c15)

/-- One step of the state. -/
def step (g : Generator) : Generator := ⟨(g.state * multiplier + increment) % (words * words)⟩

/-- The number mixed out of a state. -/
def output (g : Generator) : UInt64 :=
  let high := UInt64.ofNat (g.state / words)
  let low := UInt64.ofNat g.state
  let high := high ^^^ (high >>> 32)
  let high := high * 0xda942042e4dd58b5
  let high := high ^^^ (high >>> 48)
  high * (low ||| 1)

/-- The next number of 64 bits. -/
def next (g : Generator) : UInt64 × Generator := (g.step.output, g.step)

/-- The upper half of the product of a draw with the bound. While the lower half
is below `limit` the draw is repeated, at most `tries` times. -/
def redraw (bound limit : Nat) : Nat → UInt64 × Generator → Nat × Generator
  | 0, (word, g) => (word.toNat * bound / words, g)
  | tries + 1, (word, g) =>
    if word.toNat * bound % words < limit then redraw bound limit tries g.next
    else (word.toNat * bound / words, g)

/-- How often a draw is repeated at most; a draw is repeated with a chance below
`bound / 2 ^ 64`. -/
def maxRedraws : Nat := 64

/-- A number below a positive bound. -/
def below (bound : Nat) (g : Generator) : Nat × Generator :=
  let drawn := g.next
  if bound &&& (bound - 1) = 0 then (drawn.1.toNat % bound, drawn.2)
  else redraw bound ((words - bound) % bound) maxRedraws drawn

/-- Exchanges the entry at `i` with one drawn from those up to it, then the entry
before it, and so on. -/
def swapsFrom : Nat → Generator → List (Nat × Nat) × Generator
  | 0, g => ([], g)
  | i + 1, g =>
    let drawn := below (i + 2) g
    let others := swapsFrom i drawn.2
    ((i + 1, drawn.1) :: others.1, others.2)

/-- The exchanges that shuffle a number of entries. -/
def swaps (count : Nat) (g : Generator) : List (Nat × Nat) × Generator := swapsFrom (count - 1) g

/-- The generator as a source of choices. -/
def source : Source Generator := ⟨below, swaps⟩

end Generator

end CapLiveness
