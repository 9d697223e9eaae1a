/-!
Arithmetic in the words of a target language. A step can be a fault: something that the
language refuses to do, or that gives a number which the word cannot hold. Unsigned words fault
on shifts by their size or more, signed words take the count of a shift modulo their size.
-/

namespace CommandWord

/-- Why a routine gives no result. Only a fault is no answer of the source itself. -/
inductive Halt where
  | fault
  | unknownKind
  | wrongArity
  | fieldRange (field : Nat)
  | mismatch
  deriving DecidableEq

structure WordArithmetic (size : Nat) where
  literal : Nat → Except Halt (BitVec size)
  shiftLeft : BitVec size → Nat → Except Halt (BitVec size)
  shiftRight : BitVec size → Nat → Except Halt (BitVec size)
  successor : BitVec size → Except Halt (BitVec size)
  predecessor : BitVec size → Except Halt (BitVec size)
  isNegative : BitVec size → Bool

namespace WordArithmetic

def faultIf {size : Nat} (refused : Bool) (word : BitVec size) : Except Halt (BitVec size) :=
  if refused then .error .fault else .ok word

def unsigned (size : Nat) : WordArithmetic size where
  literal value := faultIf ((BitVec.ofNat size value).toNat != value) (BitVec.ofNat size value)
  shiftLeft word count := faultIf (size ≤ count) (word <<< count)
  shiftRight word count := faultIf (size ≤ count) (word >>> count)
  successor word := faultIf (BitVec.uaddOverflow word 1) (word + 1)
  predecessor word := .ok (word - 1)
  isNegative _ := false

/-- Signed words in two's complement, shifted to the right without regard to the sign. -/
def signed (size : Nat) : WordArithmetic size where
  literal value := faultIf ((BitVec.ofNat size value).toInt != value) (BitVec.ofNat size value)
  shiftLeft word count := .ok (word <<< (count % size))
  shiftRight word count := .ok (word >>> (count % size))
  successor word := faultIf (BitVec.saddOverflow word 1) (word + 1)
  predecessor word := faultIf (BitVec.ssubOverflow word 1) (word - 1)
  isNegative word := word.msb

end WordArithmetic

end CommandWord
