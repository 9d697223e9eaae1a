import CommandWord.Proofs.Checksum.Remainder
import CommandWord.Proofs.Codec.Masking

/-!
What the fingerprint tells apart. The mask stands in the stream between bytes that the other
inputs of a build decide, so two builds that differ in their masks alone have different
fingerprints if the masks differ in none but 32 consecutive bits.
-/

namespace CommandWord

namespace Codec

variable {totalBits : Nat} {commands : List Command} {layout : Layout}
  {source other : MaskSource} {first second : Codec}

/-- The mask has no part in the choice of the headers. -/
theorem entries_eq_of_build [Randomness]
    (hfirst : build totalBits commands layout source = .ok first)
    (hsecond : build totalBits commands layout other = .ok second) :
    first.entries = second.entries := by
  obtain ⟨hmask, hsame⟩ := exists_eq_withMask hfirst hsecond
  rw [hsame]
  rfl

/-- The bytes around the mask are decided without it. -/
theorem exists_bytes_eq [Randomness]
    (hfirst : build totalBits commands layout source = .ok first)
    (hsecond : build totalBits commands layout other = .ok second) :
    ∃ front back, first.bytes = front ++ littleEndian 8 first.mask.toNat ++ back ∧
      second.bytes = front ++ littleEndian 8 second.mask.toNat ++ back := by
  obtain ⟨hbits, -, hlayout, -⟩ := inputs_of_build hfirst
  obtain ⟨hbits', -, hlayout', -⟩ := inputs_of_build hsecond
  refine ⟨littleEndian 4 totalBits ++ layout.name.toUTF8.data.toList,
    first.entries.flatMap Entry.bytes, ?_, ?_⟩
  · rw [bytes, Codec.totalBits, hbits, hlayout]
  · rw [bytes, Codec.totalBits, hbits', hlayout', entries_eq_of_build hfirst hsecond]

/-- Masks of at most 32 bits differ in no others. -/
theorem agreeOutside_of_le (hbits : first.totalBits ≤ 32) (hbits' : second.totalBits ≤ 32) :
    Checksum.AgreeOutside 0 first.mask.toNat second.mask.toNat := by
  have hclear : ∀ codec : Codec, codec.totalBits ≤ 32 → ∀ i, 32 ≤ i →
      codec.mask.toNat.testBit i = false := by
    intro codec hword i hi
    have hpow : 2 ^ codec.totalBits ≤ 2 ^ i := Nat.pow_le_pow_right (by omega) (by omega)
    exact Nat.testBit_lt_two_pow (Nat.lt_of_lt_of_le (fits_iff_lt.mp codec.mask_fits) hpow)
  intro i hi
  rw [hclear first hbits i (by omega), hclear second hbits' i (by omega)]

/-- The fingerprint is the check of a codec's bytes. Builds that differ in their masks alone have
different fingerprints if the masks are of at most 32 bits, or agree outside some 32 consecutive
bits. -/
theorem fingerprint_separates_masks [Randomness] :
    (∀ codec : Codec, Checksum.reflected 32 (~~~codec.fingerprint).toNat =
      Checksum.remainderOf codec.bytes) ∧
    ∀ {totalBits : Nat} {commands : List Command} {layout : Layout} {source other : MaskSource}
      {first second : Codec}, build totalBits commands layout source = .ok first →
        build totalBits commands layout other = .ok second → first.mask ≠ second.mask →
        (totalBits ≤ 32 ∨
          ∃ start, Checksum.AgreeOutside start first.mask.toNat second.mask.toNat) →
        first.fingerprint ≠ second.fingerprint := by
  refine ⟨fun codec => Checksum.reflected_crc32 codec.bytes, ?_⟩
  intro totalBits commands layout source other first second hfirst hsecond hmasks hwindow
  have hagree : ∃ start, Checksum.AgreeOutside start first.mask.toNat second.mask.toNat := by
    rcases hwindow with hbits | hstart
    · have hfirstBits : first.totalBits ≤ 32 := (inputs_of_build hfirst).1.trans_le hbits
      have hsecondBits : second.totalBits ≤ 32 := (inputs_of_build hsecond).1.trans_le hbits
      exact ⟨0, agreeOutside_of_le hfirstBits hsecondBits⟩
    · exact hstart
  obtain ⟨start, hagree⟩ := hagree
  obtain ⟨front, back, hbytes, hbytes'⟩ := exists_bytes_eq hfirst hsecond
  rw [fingerprint, fingerprint, hbytes, hbytes']
  refine Checksum.crc32_ne_of_agreeOutside first.mask.toNat_lt second.mask.toNat_lt hagree ?_ _ _
  exact fun heq => hmasks (UInt64.toNat_inj.mp heq)

/-- Two masks of 64 bits that differ in every bit of a window across a word boundary. -/
theorem fingerprint_separates_wide_masks :
    ∃ first second,
      build 64 [⟨"MOVE", [63]⟩, ⟨"STOP", []⟩] .perCommand (.fixed 0) = .ok first ∧
        build 64 [⟨"MOVE", [63]⟩, ⟨"STOP", []⟩] .perCommand (.fixed 0xFFFFFFFF00000) =
          .ok second ∧
        first.fingerprint ≠ second.fingerprint := by
  obtain ⟨first, hfirst⟩ : ∃ codec,
      build 64 [⟨"MOVE", [63]⟩, ⟨"STOP", []⟩] .perCommand (.fixed 0) = .ok codec :=
    exists_build (by rintro (_ | _ | _ | _) <;> decide)
  obtain ⟨second, hsecond⟩ : ∃ codec,
      build 64 [⟨"MOVE", [63]⟩, ⟨"STOP", []⟩] .perCommand (.fixed 0xFFFFFFFF00000) = .ok codec :=
    exists_build (by rintro (_ | _ | _ | _) <;> decide)
  have hmask : first.mask = 0 := (Except.ok.inj (inputs_of_build hfirst).2.2.2).symm
  have hmask' : second.mask = 0xFFFFFFFF00000 :=
    (Except.ok.inj (inputs_of_build hsecond).2.2.2).symm
  have hagree : Checksum.AgreeOutside 20 first.mask.toNat second.mask.toNat := by
    intro i hi
    rw [hmask, hmask']
    have hwindow : (0xFFFFFFFF00000 : UInt64).toNat = (2 ^ 32 - 1) <<< 20 := by decide
    rw [hwindow, Nat.testBit_shiftLeft, Nat.testBit_two_pow_sub_one]
    simp
    omega
  refine ⟨first, second, hfirst, hsecond,
    fingerprint_separates_masks.2 hfirst hsecond ?_ (Or.inr ⟨20, hagree⟩)⟩
  rw [hmask, hmask']
  decide

end Codec

end CommandWord
