/-
Seeded random numbers.

A generator is a ChaCha stream whose key is derived from a seed of 64 bits, so that equal seeds
give equal draws.  Draws consume words of the stream; a draw from a range that is not a power
of two rejects words to stay uniform.

* `Generator.ofSeed` — the generator of a seed;
* `chance`, `fromRange` — the draws that everything else is made of.
-/
import DocumentRules.Number.Binary64
import DocumentRules.Random.ChaCha

namespace DocumentRules

/-- A stream of random words. -/
structure Generator where
  key : Vector UInt32 8
  nextBlock : UInt64
  /-- The words of the current block that have not been drawn. -/
  buffer : List UInt32

/-- A computation that draws random numbers. -/
abbrev Draw := StateM Generator

namespace Generator

/-- One step of the congruential sequence that keys are derived from. -/
def seedStep (state : UInt64) : UInt64 := state * 6364136223846793005 + 11634580027462260723

/-- The word that a state of that sequence gives. -/
def seedWord (state : UInt64) : UInt32 :=
  let x := (((state >>> 18) ^^^ state) >>> 27).toUInt32
  let n := (state >>> 59).toUInt32
  if n = 0 then x else (x >>> n) ||| (x <<< (32 - n))

def seedStates : Nat → UInt64 → List UInt64
  | 0, _ => []
  | n + 1, state => seedStep state :: seedStates n (seedStep state)

def keyOfSeed (seed : UInt64) : Vector UInt32 8 :=
  Vector.ofFn fun i => seedWord ((seedStates 8 seed)[i]?.getD 0)

def ofSeed (seed : UInt64) : Generator := ⟨keyOfSeed seed, 0, []⟩

/-- The next word of the stream. -/
def next (g : Generator) : UInt32 × Generator :=
  match g.buffer with
  | w :: rest => (w, { g with buffer := rest })
  | [] =>
    let words := ChaCha.block g.key g.nextBlock
    (words[0], { g with nextBlock := g.nextBlock + 1, buffer := words.toList.drop 1 })

end Generator

/-- A probability, as the number of the words of 64 bits that count as a hit. -/
structure Odds where
  hits : Nat

namespace Odds

/-- The probability that is the floating-point number nearest to a quotient. -/
def ofQuotient (num den : Nat) : Odds :=
  ⟨((Binary64.ofQuotient false num den).toRat * (UInt64.size : Rat)).floor.toNat⟩

def half : Odds := ofQuotient 1 2

def fifth : Odds := ofQuotient 1 5

end Odds

namespace Draw

def word32 : Draw Nat := modifyGet fun g => (g.next.1.toNat, g.next.2)

/-- A word of 64 bits, the low half first. -/
def word64 : Draw Nat := do
  let low ← word32
  let high ← word32
  return low + high * UInt32.size

/-- True with this probability. -/
def chance (odds : Odds) : Draw Bool := do return (← word64) < odds.hits

/-- How a range is drawn from. -/
inductive Width where
  | word
  | long
  /-- With words of 32 bits, of which as few as possible are rejected. -/
  | byte

namespace Width

def bits : Width → Nat
  | .word | .byte => 32
  | .long => 64

def size : Width → Nat
  | .word | .byte => UInt32.size
  | .long => UInt64.size

/-- The greatest low half of a product that is accepted when one of `n` values is drawn. -/
def zone (w : Width) (n : Nat) : Nat :=
  match w with
  | .byte => UInt32.size - 1 - (UInt32.size - n) % n
  | _ => n * Nat.pow 2 (w.bits - 1 - n.log2) - 1

def draw : Width → Draw Nat
  | .word | .byte => word32
  | .long => word64

end Width

/-- Draw words until one is accepted. At least every second word is accepted, so that the
bound on their number is never met in practice. -/
def belowWithin (w : Width) (n : Nat) : (attempts : Nat) → Draw Nat
  | 0 => return 0
  | attempts + 1 => do
    let product := (← w.draw) * n
    if product % w.size ≤ w.zone n then return product / w.size
    else belowWithin w n attempts

def below (w : Width) (n : Nat) : Draw Nat := belowWithin w n 1000

/-- A number of a range, both ends included. -/
def fromRange (w : Width) (low high : Int) : Draw Int := do
  return low + (← below w (high - low + 1).toNat)

end Draw

end DocumentRules
