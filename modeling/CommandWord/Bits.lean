/-!
The low bits of a 64-bit word. `lowMask` is the word with its lowest bits set, and all of
them from 64 on; `reverseBits` writes the lowest bits of a word in the opposite order and
drops the others. Widths are natural numbers, so a width of 64 or more is an ordinary case.
-/

namespace CommandWord

/-- The word whose lowest `bits` bits are set. It saturates at 64 bits. -/
def lowMask (bits : Nat) : UInt64 :=
  UInt64.ofNat (1 <<< min bits 64 - 1)

def Fits (word : UInt64) (bits : Nat) : Prop :=
  word &&& ~~~lowMask bits = 0

instance (word : UInt64) (bits : Nat) : Decidable (Fits word bits) :=
  inferInstanceAs (Decidable (_ = _))

/-- The number that the lowest `bits` binary digits of `value` spell when they are read from
the other end. -/
def reversal : Nat → Nat → Nat
  | 0, _ => 0
  | bits + 1, value => (value % 2) <<< bits + reversal bits (value / 2)

def reverseBits (value : UInt64) (bits : Nat) : UInt64 :=
  UInt64.ofNat (reversal bits value.toNat)

theorem fits_and_lowMask (word : UInt64) (bits : Nat) : Fits (word &&& lowMask bits) bits := by
  simp [Fits, UInt64.and_assoc]

end CommandWord
