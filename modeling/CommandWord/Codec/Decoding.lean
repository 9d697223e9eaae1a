import CommandWord.Codec.Encoding
import CommandWord.Bits.Reader

/-!
Decoding a value. A value wider than the word, one that matches no header, and one with a bit
set that its command does not use are all refused; the first header that matches decides.
-/

namespace CommandWord

namespace Codec

/-- The raw value behind a value on the wire. The value zero has none below it and goes round to
the highest, whose bits are all set. -/
def unwrap (codec : Codec) (value : UInt64) : UInt64 :=
  (value ^^^ codec.mask) - 1 &&& lowMask codec.totalBits

def unpack (entry : Entry) (raw : UInt64) : Except BitError (List UInt64 × BitReader) := do
  let behind ← (BitReader.ofWord raw).skip entry.header.length
  behind.readAll entry.command.fields

def decodeAmong (codec : Codec) (order : List Entry) (value : UInt64) : Except Error Message :=
  if ¬ Fits value codec.totalBits then
    .error (.decodeMismatch value)
  else
    match order.find? fun entry => entry.header.Matches (codec.unwrap value) with
    | none => .error (.decodeMismatch value)
    | some entry =>
        match unpack entry (codec.unwrap value) with
        | .error cause => .error (.bits cause)
        | .ok (fields, behind) =>
            if behind.remainder ≠ 0 then .error (.decodeMismatch value)
            else .ok ⟨entry.id, fields⟩

def decode (codec : Codec) (value : UInt64) : Except Error Message :=
  codec.decodeAmong codec.decodeOrder value

end Codec

end CommandWord
