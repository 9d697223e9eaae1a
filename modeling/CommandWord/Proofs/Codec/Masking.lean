import CommandWord.Proofs.Codec.Compilation
import CommandWord.Proofs.Codec.Wire
import CommandWord.Report
import Mathlib.Data.LawfulXor.Basic

/-!
What the mask decides. It has no part in the choice of the headers, so builds that differ in
their mask sources alone are one codec under two masks. Such codecs give a message the same raw
value, and a value means to the one what the value moved by both masks means to the other.
-/

namespace CommandWord

namespace Codec

/-- The codec under another mask. -/
def withMask (codec : Codec) (mask : UInt64) (hmask : Fits mask codec.totalBits) : Codec :=
  { codec with mask := mask, mask_fits := hmask }

section

variable {totalBits : Nat} {commands : List Command} {layout : Layout}
  {source other : MaskSource} {codec first second : Codec}

/-- Inputs that are built with one mask are built with every mask that fits the word. -/
theorem build_fixed [Randomness] (hbuild : build totalBits commands layout source = .ok codec)
    {mask : UInt64} (hmask : Fits mask codec.totalBits) :
    build totalBits commands layout (.fixed mask) = .ok (codec.withMask mask hmask) := by
  obtain ⟨rfl, rfl, rfl, -⟩ := inputs_of_build hbuild
  have hdraw : MaskSource.draw (.fixed mask) codec.registry.totalBits = .ok mask :=
    if_neg (not_not.mpr hmask)
  exact build_of_draw codec.compiled hdraw

theorem exists_eq_withMask [Randomness]
    (hfirst : build totalBits commands layout source = .ok first)
    (hsecond : build totalBits commands layout other = .ok second) :
    ∃ hmask, second = first.withMask second.mask hmask := by
  obtain ⟨hbits, -, -, -⟩ := inputs_of_build hfirst
  obtain ⟨rfl, rfl, rfl, -⟩ := inputs_of_build hsecond
  have hmask : Fits second.mask first.totalBits := by
    rw [Codec.totalBits, hbits]
    exact second.mask_fits
  exact ⟨hmask, Except.ok.inj (second.build_parts.symm.trans (build_fixed hfirst hmask))⟩

end

variable {codec : Codec} {mask value : UInt64} {message : Message}

theorem fits_xor_masks_iff (hmask : Fits mask codec.totalBits) :
    Fits (value ^^^ codec.mask ^^^ mask) codec.totalBits ↔ Fits value codec.totalBits := by
  have hmasks : Fits (codec.mask ^^^ mask) codec.totalBits := codec.mask_fits.xor hmask
  rw [UInt64.xor_assoc, UInt64.xor_comm]
  exact hmasks.xor_iff

theorem unwrap_withMask (hmask : Fits mask codec.totalBits) :
    (codec.withMask mask hmask).unwrap value = codec.unwrap (value ^^^ codec.mask ^^^ mask) := by
  have hunmasked : value ^^^ codec.mask ^^^ mask ^^^ codec.mask = value ^^^ mask := by
    rw [UInt64.xor_assoc value, UInt64.xor_comm codec.mask, ← UInt64.xor_assoc, xor_cancel_right]
  rw [unwrap, unwrap, hunmasked]
  rfl

/-- A value conveys under one mask what the value moved by both masks conveys under the other. -/
theorem conveys_withMask_iff (hmask : Fits mask codec.totalBits) :
    (codec.withMask mask hmask).Conveys value message ↔
      codec.Conveys (value ^^^ codec.mask ^^^ mask) message := by
  have hfits : Fits (value ^^^ codec.mask ^^^ mask) codec.totalBits ↔
      Fits value codec.totalBits := fits_xor_masks_iff hmask
  constructor
  · intro hconveys
    obtain ⟨hvalue, entry, hentry, hcarries⟩ := hconveys
    rw [unwrap_withMask] at hcarries
    exact ⟨hfits.mpr hvalue, entry, hentry, hcarries⟩
  · intro hconveys
    obtain ⟨hvalue, entry, hentry, hcarries⟩ := hconveys
    rw [← unwrap_withMask hmask] at hcarries
    exact ⟨hfits.mp hvalue, entry, hentry, hcarries⟩

/-- Codecs that were built from the same inputs with two masks give a message the same raw value
or the same fault, and a value is to the one what the value moved by both masks is to the other.
Headers, classes and report rows are the same. -/
theorem mask_translates_values [Randomness] {totalBits : Nat} {commands : List Command}
    {layout : Layout} {source other : MaskSource} {first second : Codec}
    (hfirst : build totalBits commands layout source = .ok first)
    (hsecond : build totalBits commands layout other = .ok second) :
    first.headers = second.headers ∧ first.headerClasses = second.headerClasses ∧
      (Report.ofCodec first).rows = (Report.ofCodec second).rows ∧
      (∀ message,
        (∃ cause, first.encode message = .error cause ∧ second.encode message = .error cause) ∨
        ∃ value moved, first.encode message = .ok value ∧ second.encode message = .ok moved ∧
          value ^^^ first.mask = moved ^^^ second.mask) ∧
      ∀ value,
        (∃ message, second.decode value = .ok message ∧
          first.decode (value ^^^ first.mask ^^^ second.mask) = .ok message) ∨
        second.decode value = .error (.decodeMismatch value) ∧
          first.decode (value ^^^ first.mask ^^^ second.mask) =
            .error (.decodeMismatch (value ^^^ first.mask ^^^ second.mask)) := by
  obtain ⟨hmask, hsame⟩ := exists_eq_withMask hfirst hsecond
  generalize second.mask = mask at hmask hsame ⊢
  subst hsame
  refine ⟨rfl, rfl, rfl, ?_, ?_⟩
  · intro message
    have hraw : (first.withMask mask hmask).rawValue message = first.rawValue message := rfl
    simp only [encode, hraw]
    cases first.rawValue message with
    | error cause => exact Or.inl ⟨cause, rfl, rfl⟩
    | ok raw =>
      refine Or.inr ⟨first.wrap raw, (first.withMask mask hmask).wrap raw, rfl, rfl, ?_⟩
      exact (first.wrap_xor_mask raw).trans ((first.withMask mask hmask).wrap_xor_mask raw).symm
  · intro value
    rcases (first.withMask mask hmask).decode_cases value with
      ⟨message, hok, hconveys⟩ | ⟨herror, hnone⟩
    · exact Or.inl ⟨message, hok, decode_eq_ok_iff.mpr ((conveys_withMask_iff hmask).mp hconveys)⟩
    · refine Or.inr ⟨herror, ?_⟩
      rcases first.decode_cases (value ^^^ first.mask ^^^ mask) with
        ⟨message, -, hconveys⟩ | ⟨herror', -⟩
      · exact absurd ((conveys_withMask_iff hmask).mpr hconveys) (hnone message)
      · exact herror'

/-- A seeded sender and a receiver with a given mask. -/
theorem mask_translates_values_of_seed :
    ∃ first second,
      build 6 [⟨"A", [3]⟩, ⟨"B", []⟩, ⟨"C", [1, 1]⟩] .perCommand (.seed 7) = .ok first ∧
        build 6 [⟨"A", [3]⟩, ⟨"B", []⟩, ⟨"C", [1, 1]⟩] .perCommand (.fixed 0x2A) = .ok second ∧
        ∃ value moved, first.encode ⟨2, [1, 0]⟩ = .ok value ∧
          second.encode ⟨2, [1, 0]⟩ = .ok moved ∧ value ^^^ first.mask = moved ^^^ second.mask := by
  obtain ⟨first, hfirst⟩ : ∃ codec,
      build 6 [⟨"A", [3]⟩, ⟨"B", []⟩, ⟨"C", [1, 1]⟩] .perCommand (.seed 7) = .ok codec :=
    exists_build (by rintro (_ | _ | _ | _) <;> decide)
  obtain ⟨second, hsecond⟩ : ∃ codec,
      build 6 [⟨"A", [3]⟩, ⟨"B", []⟩, ⟨"C", [1, 1]⟩] .perCommand (.fixed 0x2A) = .ok codec :=
    exists_build (by rintro (_ | _ | _ | _) <;> decide)
  obtain ⟨-, hcommands, -, -⟩ := inputs_of_build hfirst
  have hcommand : first.registry.commands[2]? = some ⟨"C", [1, 1]⟩ := by rw [hcommands]; rfl
  have hfill : Fill [1, 1] [1, 0] := by decide
  obtain ⟨value, hencode⟩ := encode_of_fill hcommand hfill
  obtain ⟨-, -, -, hmessages, -⟩ := mask_translates_values hfirst hsecond
  refine ⟨first, second, hfirst, hsecond, ?_⟩
  rcases hmessages ⟨2, [1, 0]⟩ with ⟨cause, herror, -⟩ | hvalues
  · rw [hencode] at herror
    contradiction
  · exact hvalues

end Codec

end CommandWord
