import CommandWord.Bits
import CommandWord.Error

/-!
Taking values out of one word, the lowest bits first. A call answers with the bits or with the
reason why there are none, and leaves a reader behind in either case.
-/

namespace CommandWord

/-- A word whose lowest `position` bits have been read. -/
structure BitReader where
  word : UInt64
  position : Nat
  deriving DecidableEq

namespace BitReader

def ofWord (word : UInt64) : BitReader := ⟨word, 0⟩

/-- Take the next `width` bits: the answer, and the reader after it. -/
def call (reader : BitReader) (width : Nat) : Except BitError UInt64 × BitReader :=
  if 64 - reader.position < width then
    (.error (.insufficientBits width (64 - reader.position)), reader)
  else if width = 0 then
    (.ok 0, reader)
  else
    (.ok (reader.word >>> reader.position.toUInt64 &&& lowMask width),
      ⟨reader.word, reader.position + width⟩)

def read (reader : BitReader) (width : Nat) : Except BitError (UInt64 × BitReader) :=
  match reader.call width with
  | (.ok value, behind) => .ok (value, behind)
  | (.error cause, _) => .error cause

def skip (reader : BitReader) (width : Nat) : Except BitError BitReader :=
  (reader.read width).map Prod.snd

def readAll (reader : BitReader) : List Nat → Except BitError (List UInt64 × BitReader)
  | [] => .ok ([], reader)
  | width :: widths => do
      let (value, behind) ← reader.read width
      let (values, last) ← behind.readAll widths
      return (value :: values, last)

def remainder (reader : BitReader) : UInt64 :=
  if 64 ≤ reader.position then 0 else reader.word >>> reader.position.toUInt64

end BitReader

end CommandWord
