import CommandWord.Proofs.Codec.Compilation
import CommandWord.Proofs.Codec.Wire

/-!
The value that means no message stays free. The raw value of a message is never the highest of
its word, so adding one neither overflows nor reaches the value whose masking gives the mask.
-/

namespace CommandWord

namespace Codec

variable {codec : Codec} {value : UInt64} {message : Message}

theorem not_conveys_sentinel (codec : Codec) (message : Message) :
    ¬ codec.Conveys codec.sentinel message := by
  intro hconveys
  have hlt := hconveys.unwrap_lt
  rw [sentinel, toNat_unwrap_mask] at hlt
  omega

theorem rawValue_of_encode (hencode : codec.encode message = .ok value) :
    ∃ raw, codec.rawValue message = .ok raw ∧ value = codec.wrap raw ∧
      raw.toNat + 1 < 2 ^ codec.totalBits := by
  have hconveys := encode_eq_ok_iff.mp hencode
  obtain ⟨entry, hentry, hcarries⟩ := hconveys.carried
  exact ⟨codec.unwrap value, (rawValue_eq_ok_iff hentry).mpr hcarries,
    (wrap_unwrap hconveys.fits hconveys.unwrap_lt).symm, hconveys.unwrap_lt⟩

/-- What is encoded stays within the word and clear of the sentinel, and its raw value can be
counted up by one; the sentinel itself is a mismatch. -/
theorem encode_avoids_sentinel (codec : Codec) :
    (∀ message value, codec.encode message = .ok value →
      ∃ raw, codec.rawValue message = .ok raw ∧ value = (raw + 1) ^^^ codec.mask ∧
        raw.toNat ≤ 2 ^ codec.totalBits - 2 ∧ (raw + 1).toNat = raw.toNat + 1 ∧
        value.toNat < 2 ^ codec.totalBits ∧ value ≠ codec.sentinel) ∧
    codec.decode codec.sentinel = .error (.decodeMismatch codec.sentinel) := by
  constructor
  · intro message value hencode
    have hconveys := encode_eq_ok_iff.mp hencode
    obtain ⟨raw, hraw, hvalue, hlt⟩ := rawValue_of_encode hencode
    refine ⟨raw, hraw, hvalue, by omega, codec.toNat_succ hlt,
      fits_iff_lt.mp hconveys.fits, ?_⟩
    rintro rfl
    exact codec.not_conveys_sentinel message hconveys
  · rcases decodeAmong_cases codec.decodeOrder_perm codec.sentinel with
      ⟨message, -, hconveys⟩ | ⟨herror, -⟩
    · exact absurd hconveys (codec.not_conveys_sentinel message)
    · exact herror

/-- All bits of the payload set, under a one-bit header in a word of 64 bits. -/
theorem encode_avoids_sentinel_full_payload :
    ∃ codec value,
      build 64 [⟨"MOVE", [63]⟩, ⟨"STOP", []⟩] .perCommand (.fixed 0xC3) = .ok codec ∧
        codec.encode ⟨0, [0x7FFFFFFFFFFFFFFF]⟩ = .ok value ∧ value ≠ codec.sentinel := by
  obtain ⟨codec, hbuild⟩ : ∃ codec,
      build 64 [⟨"MOVE", [63]⟩, ⟨"STOP", []⟩] .perCommand (.fixed 0xC3) = .ok codec :=
    exists_build (by rintro (_ | _ | _ | _) <;> decide)
  obtain ⟨-, hcommands, -, -⟩ := inputs_of_build hbuild
  have hcommand : codec.registry.commands[0]? = some ⟨"MOVE", [63]⟩ := by rw [hcommands]; rfl
  have hfill : Fill [63] [0x7FFFFFFFFFFFFFFF] := by decide
  obtain ⟨value, hencode⟩ := encode_of_fill hcommand hfill
  obtain ⟨-, -, -, -, -, -, hne⟩ := (encode_avoids_sentinel codec).1 _ _ hencode
  exact ⟨codec, value, hbuild, hencode, hne⟩

end Codec

end CommandWord
