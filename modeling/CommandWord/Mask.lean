import CommandWord.Bits
import CommandWord.Error

/-!
The mask that every value of a codec is combined with. It is drawn anew from the system's
entropy, or reproducibly from a seed, or given outright; a given mask must fit the word. Of a
library of random numbers it is asked that a seed gives a state, and every draw a number and the
state behind it, so that equal seeds give equal numbers.
-/

namespace CommandWord

class Randomness where
  State : Type
  ofSeed : UInt64 → State
  /-- A number of 64 bits. -/
  word : State → UInt64 × State
  /-- A number from the first bound to the second, both included, of a type with so many words of
  32 bits. -/
  between : State → (words low high : Nat) → Nat × State

/-- A number that is drawn from a range is in the range, whatever was drawn before. -/
def Randomness.InRange [Randomness] : Prop :=
  ∀ (state : Randomness.State) (words low high : Nat), low ≤ high →
    low ≤ (Randomness.between state words low high).1 ∧
      (Randomness.between state words low high).1 ≤ high

inductive MaskSource where
  | entropy (word : UInt64)
  | seed (start : UInt64)
  | fixed (mask : UInt64)
  deriving DecidableEq

namespace MaskSource

variable [Randomness]

def firstDraw (start : UInt64) : UInt64 :=
  (Randomness.word (Randomness.ofSeed start)).1

def draw (source : MaskSource) (totalBits : Nat) : Except ConfigurationError UInt64 :=
  match source with
  | .entropy word => .ok (word &&& lowMask totalBits)
  | .seed start => .ok (firstDraw start &&& lowMask totalBits)
  | .fixed mask =>
      if ¬ Fits mask totalBits then .error (.maskOutOfRange mask totalBits)
      else .ok mask

/-- A mask that was drawn fits the word. -/
theorem fits_of_draw {source : MaskSource} {totalBits : Nat} {mask : UInt64}
    (hdraw : source.draw totalBits = .ok mask) : Fits mask totalBits := by
  cases source with
  | entropy word => exact Except.ok.inj hdraw ▸ fits_and_lowMask word totalBits
  | seed start => exact Except.ok.inj hdraw ▸ fits_and_lowMask _ totalBits
  | fixed given =>
    simp only [draw] at hdraw
    split at hdraw
    · contradiction
    next hfits =>
      rw [← Except.ok.inj hdraw]
      exact Decidable.not_not.mp hfits

end MaskSource

end CommandWord
