import CommandWord.Proofs.Codec.Counting
import CommandWord.Proofs.Codec.Masking
import Mathlib.Data.LawfulXor.Basic

/-!
How many receivers accept a value. Whoever has another mask holds the value against the headers
after a move by both masks, and the moves that all masks make bring the value to every place of
the word once. So a value is accepted under as many masks as one codec accepts values.
-/

namespace CommandWord

namespace Codec

variable {totalBits : Nat} {commands : List Command} {layout : Layout} {source : MaskSource}
  {codec : Codec} {mask value : UInt64}

/-- The masks under which the inputs are built to a codec that accepts the value. -/
def acceptingMasks [Randomness] (totalBits : Nat) (commands : List Command) (layout : Layout)
    (value : UInt64) : Set UInt64 :=
  {mask | mask.toNat < 2 ^ totalBits ∧ ∃ receiver,
    build totalBits commands layout (.fixed mask) = .ok receiver ∧
      ∃ message, receiver.decode value = .ok message}

theorem exists_decode_withMask_iff (hmask : Fits mask codec.totalBits) :
    (∃ message, (codec.withMask mask hmask).decode value = .ok message) ↔
      ∃ message, codec.decode (value ^^^ codec.mask ^^^ mask) = .ok message := by
  simp only [decode_eq_ok_iff, conveys_withMask_iff]

/-- The accepting masks are those that move the value to an accepted one. -/
theorem acceptingMasks_eq_preimage [Randomness]
    (hbuild : build totalBits commands layout source = .ok codec)
    (hvalue : Fits value codec.totalBits) :
    acceptingMasks totalBits commands layout value =
      Set.preimage (fun mask => value ^^^ codec.mask ^^^ mask) codec.accepted := by
  have hbits : codec.totalBits = totalBits := (inputs_of_build hbuild).1
  ext mask
  change mask.toNat < 2 ^ totalBits ∧ _ ↔
    (value ^^^ codec.mask ^^^ mask).toNat < 2 ^ codec.totalBits ∧ _
  rw [← hbits, ← fits_iff_lt, ← fits_iff_lt, (hvalue.xor codec.mask_fits).xor_iff]
  refine and_congr_right fun hmask => ?_
  rw [hbits, build_fixed hbuild hmask, ← exists_decode_withMask_iff hmask]
  constructor
  · intro haccepts
    obtain ⟨receiver, hreceiver, hdecode⟩ := haccepts
    rwa [Except.ok.inj hreceiver]
  · intro hdecode
    exact ⟨_, rfl, hdecode⟩

theorem ncard_acceptingMasks [Randomness]
    (hbuild : build totalBits commands layout source = .ok codec)
    (hvalue : Fits value codec.totalBits) :
    (acceptingMasks totalBits commands layout value).ncard = codec.accepted.ncard := by
  have hmoves : Function.Involutive fun mask => value ^^^ codec.mask ^^^ mask :=
    xor_cancel_left (value ^^^ codec.mask)
  rw [acceptingMasks_eq_preimage hbuild hvalue]
  apply Set.ncard_preimage_of_injective_subset_range hmoves.injective
  rw [hmoves.surjective.range_eq]
  exact Set.subset_univ _

/-- Inputs that are built with one mask are built with every mask of the word, and a value of the
word is decoded under as many of them as the commands have messages. Under the others it is a
mismatch. -/
theorem accepting_masks_counted [Randomness]
    (hbuild : build totalBits commands layout source = .ok codec)
    (hvalue : value.toNat < 2 ^ totalBits) :
    (∀ mask : UInt64, mask.toNat < 2 ^ totalBits → ∃ receiver,
      build totalBits commands layout (.fixed mask) = .ok receiver ∧
        ((∃ message, receiver.decode value = .ok message) ∨
          receiver.decode value = .error (.decodeMismatch value))) ∧
      (acceptingMasks totalBits commands layout value).ncard =
        (commands.map fun command => 2 ^ command.payloadBits).sum := by
  obtain ⟨hbits, hcommands, -, -⟩ := inputs_of_build hbuild
  have hword : codec.totalBits = totalBits := hbits
  constructor
  · intro mask hmask
    rw [← hword, ← fits_iff_lt] at hmask
    refine ⟨codec.withMask mask hmask, build_fixed hbuild hmask, ?_⟩
    rcases (codec.withMask mask hmask).decode_cases value with ⟨message, hok, -⟩ | ⟨herror, -⟩
    · exact Or.inl ⟨message, hok⟩
    · exact Or.inr herror
  · rw [← hword, ← fits_iff_lt] at hvalue
    rw [ncard_acceptingMasks hbuild hvalue, ncard_accepted, hcommands]

/-- A byte is one of thirteen messages under as many of the 256 masks. -/
theorem accepting_masks_counted_for_byte :
    ∃ codec,
      build 8 [⟨"A", [3]⟩, ⟨"B", []⟩, ⟨"C", [1, 1]⟩] .uniform (.seed 5) = .ok codec ∧
        (0xC4 : UInt64).toNat < 2 ^ 8 ∧
        (acceptingMasks 8 [⟨"A", [3]⟩, ⟨"B", []⟩, ⟨"C", [1, 1]⟩] .uniform 0xC4).ncard = 13 := by
  obtain ⟨codec, hbuild⟩ : ∃ codec,
      build 8 [⟨"A", [3]⟩, ⟨"B", []⟩, ⟨"C", [1, 1]⟩] .uniform (.seed 5) = .ok codec :=
    exists_build (by rintro (_ | _ | _ | _) <;> decide)
  have hvalue : (0xC4 : UInt64).toNat < 2 ^ 8 := by decide
  exact ⟨codec, hbuild, hvalue, (accepting_masks_counted hbuild hvalue).2⟩

end Codec

end CommandWord
