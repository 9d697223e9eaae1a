import CommandWord.Bits
import CommandWord.Text

/-!
A header: a code in the lowest bits of a raw value that says which command the value carries.
Headers of one codec have different lengths; a raw value matches a header when its lowest bits,
as many as the header is long, are the code.
-/

namespace CommandWord

structure Header where
  code : UInt64
  length : Nat
  deriving DecidableEq

namespace Header

def Matches (header : Header) (raw : UInt64) : Prop :=
  raw &&& lowMask header.length = header.code

instance (header : Header) (raw : UInt64) : Decidable (header.Matches raw) :=
  inferInstanceAs (Decidable (_ = _))

def bits (header : Header) : String :=
  if header.length = 0 then "" else Digits.paddedBinary header.length header.code.toNat

/-- The code has no bit at or above the length, and it is not the code whose bits are all set:
that one is kept for the value that means no message. -/
def IsUsable (header : Header) : Prop :=
  Fits header.code header.length ∧ header.code ≠ lowMask header.length

instance (header : Header) : Decidable header.IsUsable :=
  inferInstanceAs (Decidable (_ ∧ _))

/-- Some raw value matches both headers. It is enough to compare the codes under the shorter
of the two lengths. -/
def Collides (first second : Header) : Prop :=
  if first.length ≤ second.length then first.Matches second.code
  else second.Matches first.code

instance (first second : Header) : Decidable (first.Collides second) := by
  unfold Collides
  infer_instance

end Header

end CommandWord
