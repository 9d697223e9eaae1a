import CommandWord.Bits
import Mathlib.Algebra.Order.Ring.Nat

/-!
Words as numbers. A mask keeps a word modulo a power of two, a word fits a number of bits when
it is below that power, and the reversal of a number fits the bits that were reversed.
-/

namespace CommandWord

theorem reversal_lt (bits value : Nat) : reversal bits value < 2 ^ bits := by
  induction bits generalizing value with
  | zero => simp [reversal]
  | succ bits ih =>
    have hrest := ih (value / 2)
    have hbit : value % 2 ≤ 1 := by omega
    have hhead : value % 2 * 2 ^ bits ≤ 2 ^ bits := by
      simpa using Nat.mul_le_mul_right (2 ^ bits) hbit
    simp only [reversal, Nat.pow_succ, Nat.shiftLeft_eq]
    omega

theorem toNat_lowMask (bits : Nat) : (lowMask bits).toNat = 2 ^ min bits 64 - 1 := by
  have hle : 2 ^ min bits 64 ≤ 2 ^ 64 := Nat.pow_le_pow_right (by omega) (by omega)
  have hpos : 0 < 2 ^ min bits 64 := Nat.two_pow_pos _
  simp only [lowMask, UInt64.toNat_ofNat', Nat.one_shiftLeft]
  exact Nat.mod_eq_of_lt (by omega)

/-- Masking keeps a word's value modulo a power of two. -/
theorem toNat_and_lowMask (word : UInt64) (bits : Nat) :
    (word &&& lowMask bits).toNat = word.toNat % 2 ^ bits := by
  rw [UInt64.toNat_and, toNat_lowMask, Nat.and_two_pow_sub_one_eq_mod]
  rcases Nat.le_total bits 64 with hle | hle
  · rw [Nat.min_eq_left hle]
  · have hword : word.toNat < 2 ^ 64 := word.toNat_lt
    have hpow : 2 ^ 64 ≤ 2 ^ bits := Nat.pow_le_pow_right (by omega) hle
    rw [Nat.min_eq_right hle, Nat.mod_eq_of_lt hword, Nat.mod_eq_of_lt (by omega)]

theorem Fits.and_lowMask {word : UInt64} {bits : Nat} (hfits : Fits word bits) :
    word &&& lowMask bits = word := by
  apply UInt64.toBitVec_inj.mp
  have hbits := congrArg UInt64.toBitVec hfits
  rw [UInt64.toBitVec_and, UInt64.toBitVec_not] at hbits
  rw [UInt64.toBitVec_and]
  apply BitVec.eq_of_getLsbD_eq
  intro i hi
  have hbit := congrArg (·.getLsbD i) hbits
  simp only [BitVec.getLsbD_and, BitVec.getLsbD_not, hi, decide_true, Bool.true_and] at hbit
  rw [BitVec.getLsbD_and]
  cases hword : word.toBitVec.getLsbD i <;> cases hmask : (lowMask bits).toBitVec.getLsbD i <;>
    simp_all

/-- A word fits exactly when it is below the power of two. -/
theorem fits_iff_lt {word : UInt64} {bits : Nat} : Fits word bits ↔ word.toNat < 2 ^ bits := by
  constructor
  · intro hfits
    rw [← hfits.and_lowMask, toNat_and_lowMask]
    exact Nat.mod_lt _ (Nat.two_pow_pos _)
  · intro hlt
    have hkept : word &&& lowMask bits = word := by
      apply UInt64.toNat_inj.mp
      rw [toNat_and_lowMask, Nat.mod_eq_of_lt hlt]
    rw [← hkept]
    exact fits_and_lowMask word bits

theorem Fits.xor {left right : UInt64} {bits : Nat} (hleft : Fits left bits)
    (hright : Fits right bits) : Fits (left ^^^ right) bits := by
  rw [fits_iff_lt] at hleft hright ⊢
  rw [UInt64.toNat_xor]
  exact Nat.xor_lt_two_pow hleft hright

theorem Fits.xor_iff {left right : UInt64} {bits : Nat} (hleft : Fits left bits) :
    Fits (left ^^^ right) bits ↔ Fits right bits := by
  constructor
  · intro hboth
    have hright := hleft.xor hboth
    rwa [← UInt64.xor_assoc, UInt64.xor_self, UInt64.zero_xor] at hright
  · exact hleft.xor

theorem toNat_reverseBits (value : UInt64) {bits : Nat} (hbits : bits ≤ 64) :
    (reverseBits value bits).toNat = reversal bits value.toNat := by
  have hlt := reversal_lt bits value.toNat
  have hpow : 2 ^ bits ≤ 2 ^ 64 := Nat.pow_le_pow_right (by omega) hbits
  simp only [reverseBits, UInt64.toNat_ofNat']
  exact Nat.mod_eq_of_lt (by omega)

end CommandWord
