import CommandWord.Proofs.Codec.Compilation
import CommandWord.Proofs.Codec.Wire

/-!
Encoding and decoding are inverse to each other. Every message of a built codec is encoded and
found again, and the values that are decoded are exactly those that some message is encoded to;
all others are mismatches, whatever is wrong with them.
-/

namespace CommandWord

namespace Codec

/-- Encoding succeeds on every message of a built codec, and decoding gives the message back. -/
theorem decode_encode_of_build [Randomness] {totalBits : Nat} {commands : List Command}
    {layout : Layout} {source : MaskSource} {codec : Codec}
    (hbuild : build totalBits commands layout source = .ok codec) {id : Nat} {command : Command}
    (hcommand : commands[id]? = some command) {fields : List UInt64}
    (hfill : Fill command.fields fields) :
    ∃ value, codec.encode ⟨id, fields⟩ = .ok value ∧ codec.decode value = .ok ⟨id, fields⟩ := by
  obtain ⟨-, hcommands, -, -⟩ := inputs_of_build hbuild
  rw [← hcommands] at hcommand
  obtain ⟨value, hencode⟩ := encode_of_fill hcommand hfill
  exact ⟨value, hencode, decode_eq_ok_iff.mpr (encode_eq_ok_iff.mp hencode)⟩

/-- A full 64-bit word with a field of no bits, in the uniform layout. -/
theorem decode_encode_full_word :
    ∃ codec value,
      build 64 [⟨"EMPTY", []⟩, ⟨"WIDE", [32, 0, 30]⟩] .uniform (.seed 3) = .ok codec ∧
        codec.encode ⟨1, [0xFFFFFFFF, 0, 0x3FFFFFFF]⟩ = .ok value ∧
        codec.decode value = .ok ⟨1, [0xFFFFFFFF, 0, 0x3FFFFFFF]⟩ := by
  obtain ⟨codec, hbuild⟩ : ∃ codec,
      build 64 [⟨"EMPTY", []⟩, ⟨"WIDE", [32, 0, 30]⟩] .uniform (.seed 3) = .ok codec :=
    exists_build (by rintro (_ | _ | _ | _) <;> decide)
  have hfill : Fill [32, 0, 30] [0xFFFFFFFF, 0, 0x3FFFFFFF] := by decide
  obtain ⟨value, hencode, hdecode⟩ := decode_encode_of_build hbuild
    (rfl : _[1]? = some ⟨"WIDE", [32, 0, 30]⟩) hfill
  exact ⟨codec, value, hbuild, hencode, hdecode⟩

/-- A value is decoded to a message that encodes to it, or it is a mismatch and no message
encodes to it. -/
theorem decode_accepts_exactly_encoded (codec : Codec) (value : UInt64) :
    (∃ message, codec.decode value = .ok message ∧ codec.encode message = .ok value) ∨
      codec.decode value = .error (.decodeMismatch value) ∧
        ∀ message, codec.encode message ≠ .ok value := by
  rcases decodeAmong_cases codec.decodeOrder_perm value with
    ⟨message, hok, hconveys⟩ | ⟨herror, hnone⟩
  · exact Or.inl ⟨message, hok, encode_eq_ok_iff.mpr hconveys⟩
  · refine Or.inr ⟨herror, ?_⟩
    intro message hencode
    exact hnone message (encode_eq_ok_iff.mp hencode)

end Codec

end CommandWord
