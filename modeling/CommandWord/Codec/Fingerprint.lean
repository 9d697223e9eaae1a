import CommandWord.Codec

/-!
The fingerprint of a codec: a checksum over everything that decides which values it accepts.
Two builds with different masks, layouts or commands are told apart by it. The checksum is the
32-bit cyclic redundancy check with the reflected IEEE polynomial, all-ones start and complemented
result, one bit at a time.
-/

namespace CommandWord

namespace Checksum

/-- The generator polynomial with its coefficients in reverse order. -/
def polynomial : UInt32 := 0xEDB88320

def shift (remainder : UInt32) : UInt32 :=
  if remainder &&& 1 = 0 then remainder >>> 1 else remainder >>> 1 ^^^ polynomial

def shifts : Nat → UInt32 → UInt32
  | 0, remainder => remainder
  | count + 1, remainder => shifts count (shift remainder)

def feed (remainder : UInt32) (byte : UInt8) : UInt32 :=
  shifts 8 (remainder ^^^ byte.toUInt32)

def crc32 (bytes : List UInt8) : UInt32 :=
  ~~~bytes.foldl feed 0xFFFFFFFF

/-- The check of the digits 1 to 9, by which codes of this kind are told apart. -/
example : crc32 "123456789".toUTF8.data.toList = 0xCBF43926 := by decide +kernel

end Checksum

def littleEndian : (count : Nat) → (n : Nat) → List UInt8
  | 0, _ => []
  | count + 1, n => UInt8.ofNat n :: littleEndian count (n / 256)

namespace Entry

def bytes (entry : Entry) : List UInt8 :=
  entry.command.name.toUTF8.data.toList ++ 0 :: littleEndian 4 entry.command.fields.length ++
    entry.command.fields.flatMap (littleEndian 4) ++
    littleEndian 8 entry.header.code.toNat ++ littleEndian 4 entry.header.length

end Entry

namespace Codec

def bytes (codec : Codec) : List UInt8 :=
  littleEndian 4 codec.totalBits ++ codec.layout.name.toUTF8.data.toList ++
    littleEndian 8 codec.mask.toNat ++ codec.entries.flatMap Entry.bytes

def fingerprint (codec : Codec) : UInt32 := Checksum.crc32 codec.bytes

end Codec

end CommandWord
