import CommandWord.Bits
import CommandWord.Error

/-!
Packing values into one word, the first value into the lowest bits. A call answers whether the
value could be placed, and leaves a writer behind in either case.
-/

namespace CommandWord

/-- A word under construction whose lowest `length` bits have been written. -/
structure BitWriter where
  word : UInt64
  length : Nat
  deriving DecidableEq

namespace BitWriter

def empty : BitWriter := ⟨0, 0⟩

/-- Place `value` in the next `width` bits: the answer, and the writer after it. Room is asked for
before the value is looked at. -/
def call (writer : BitWriter) (value : UInt64) (width : Nat) : Except BitError Unit × BitWriter :=
  if 64 - writer.length < width then
    (.error (.insufficientBits width (64 - writer.length)), writer)
  else if ¬ Fits value width then
    (.error (.valueTooWide value width), writer)
  else if width = 0 then
    (.ok (), writer)
  else
    (.ok (), ⟨writer.word ||| value <<< writer.length.toUInt64, writer.length + width⟩)

def write (writer : BitWriter) (value : UInt64) (width : Nat) : Except BitError BitWriter :=
  match writer.call value width with
  | (.ok (), next) => .ok next
  | (.error cause, _) => .error cause

def attempt (writer : BitWriter) (value : UInt64) (width : Nat) : BitWriter :=
  (writer.call value width).2

end BitWriter

end CommandWord
