import CommandWord.Random.Keystream
import CommandWord.Mask

/-!
Draws from a keystream: whole numbers of one or more words, and numbers from a range. A range
is drawn by the upper part of a product, and draws that would favour some numbers are thrown
away, so every number of the range is equally likely.
-/

namespace CommandWord

structure Generator where
  key : Keystream.Key
  position : Nat

namespace Generator

def ofSeed (seed : UInt64) : Generator := ⟨Keystream.keyOfSeed seed, 0⟩

def draw : Nat → Generator → Nat × Generator
  | 0, generator => (0, generator)
  | count + 1, generator =>
      let low := Keystream.word generator.key generator.position
      let (high, behind) := draw count ⟨generator.key, generator.position + 1⟩
      (low.toNat + UInt32.size * high, behind)

/-- Whether a product with `range` falls among those that are kept: as many of each upper part,
the most that a multiple of `range` by a power of two leaves below `size`. -/
def isFair (size range product : Nat) : Bool :=
  product % size < range * (size >>> (Nat.log2 range + 1))

/-- A number below `range` from draws of `words` words each. At most `tries` draws are thrown
away; as each is with probability less than one half, that there is a last one is a matter of
form. -/
def below (words range : Nat) : (tries : Nat) → Generator → Nat × Generator
  | 0, generator =>
      let (value, behind) := draw words generator
      ((value * range) >>> (32 * words), behind)
  | tries + 1, generator =>
      let (value, behind) := draw words generator
      if isFair (1 <<< (32 * words)) range (value * range) then
        ((value * range) >>> (32 * words), behind)
      else
        below words range tries behind

def between (generator : Generator) (words low high : Nat) : Nat × Generator :=
  let (offset, behind) := below words (high - low + 1) 1024 generator
  (low + offset, behind)

/-- The library that the program is built with. -/
instance : Randomness where
  State := Generator
  ofSeed := ofSeed
  word generator :=
    let (number, behind) := draw 2 generator
    (UInt64.ofNat number, behind)
  between := between

end Generator

end CommandWord
