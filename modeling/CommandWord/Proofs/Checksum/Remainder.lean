import CommandWord.Proofs.Checksum.Burst
import Mathlib

/-!
The check as a remainder. Bits are coefficients modulo two, the first bit of a stream for the
highest power. What the steps leave behind a stream is the remainder of its polynomial, moved up
by 32 powers, by the generator of the IEEE check.
-/

namespace CommandWord

namespace Checksum

open Polynomial

/-- The lowest `count` bits of a number as a polynomial, the lowest bit for the highest power. -/
noncomputable def reflected : (count number : Nat) → (ZMod 2)[X]
  | 0, _ => 0
  | count + 1, number => C (number : ZMod 2) * X ^ count + reflected count (number / 2)

/-- The bits of a stream as a polynomial, the lowest bit of each byte first. -/
noncomputable def stream : List UInt8 → (ZMod 2)[X]
  | [] => 0
  | byte :: rest => reflected 8 byte.toNat * X ^ (8 * rest.length) + stream rest

noncomputable def generator : (ZMod 2)[X] :=
  X ^ 32 + (X ^ 26 + X ^ 23 + X ^ 22 + X ^ 16 + X ^ 12 + X ^ 11 + X ^ 10 + X ^ 8 + X ^ 7 + X ^ 5 +
    X ^ 4 + X ^ 2 + X + 1)

/-- The remainder of a stream behind 32 bits that are set, moved up by 32 powers. -/
noncomputable def remainderOf (bytes : List UInt8) : (ZMod 2)[X] :=
  (X ^ (8 * bytes.length) * reflected 32 0xFFFFFFFF + X ^ 32 * stream bytes) %ₘ generator

/-! ### Bits as coefficients -/

theorem natCast_eq (number : Nat) : (number : ZMod 2) = if number % 2 = 0 then 0 else 1 := by
  split
  next heven => exact ZMod.natCast_eq_zero_iff_even.mpr (Nat.even_iff.mpr heven)
  next hodd => exact ZMod.natCast_eq_one_iff_odd.mpr (Nat.odd_iff.mpr (by omega))

theorem natCast_xor (left right : Nat) : ((left ^^^ right : Nat) : ZMod 2) = left + right := by
  rw [← Nat.cast_add, ZMod.natCast_eq_natCast_iff']
  exact Nat.xor_mod_two_eq

theorem degree_reflected_lt (count number : Nat) : (reflected count number).degree < count := by
  induction count generalizing number with
  | zero => simp [reflected]
  | succ count ih =>
    have hsucc : (count : WithBot Nat) < (count + 1 : Nat) := by
      exact_mod_cast Nat.lt_succ_self count
    rw [reflected]
    refine lt_of_le_of_lt (degree_add_le _ _) (max_lt ?_ ?_)
    · exact lt_of_le_of_lt (degree_C_mul_X_pow_le count _) hsucc
    · exact lt_trans (ih (number / 2)) hsucc

theorem reflected_zero (count : Nat) : reflected count 0 = 0 := by
  induction count with
  | zero => rfl
  | succ count ih => simp [reflected, ih]

/-- The first bit of a stream is the one for the highest power. -/
theorem reflected_cons (count number : Nat) :
    reflected (count + 1) number =
      C (number : ZMod 2) * X ^ count + reflected count (number / 2) := rfl

/-- A word with no bit but the lowest. -/
theorem reflected_bit (number : Nat) :
    reflected 32 (UInt32.ofNat (number % 2)).toNat = C (number : ZMod 2) * X ^ 31 := by
  have hlow : (UInt32.ofNat (number % 2)).toNat = number % 2 := by
    rw [UInt32.toNat_ofNat', Nat.mod_eq_of_lt (by omega)]
  have hhigh : number % 2 / 2 = 0 := by omega
  rw [hlow, reflected_cons 31, hhigh, reflected_zero, ZMod.natCast_mod, add_zero]

theorem reflected_xor (count left right : Nat) :
    reflected count (left ^^^ right) = reflected count left + reflected count right := by
  induction count generalizing left right with
  | zero => simp [reflected]
  | succ count ih =>
    simp only [reflected, natCast_xor, C_add, Nat.xor_div_two, ih]
    ring

/-- The last bit of a stream is the one for the power zero. -/
theorem reflected_succ (count number : Nat) :
    reflected (count + 1) number =
      X * reflected count number + C ((number / 2 ^ count : Nat) : ZMod 2) := by
  induction count generalizing number with
  | zero => simp [reflected]
  | succ count ih =>
    rw [reflected, ih, reflected, Nat.div_div_eq_div_mul, ← Nat.pow_succ']
    ring

/-! ### Steps -/

theorem generator_eq : generator = X ^ 32 + reflected 32 polynomial.toNat := by
  have hvalue : polynomial.toNat = 3988292384 := rfl
  rw [hvalue]
  simp only [reflected, natCast_eq]
  norm_num
  rw [generator]
  ring

theorem generator_monic : generator.Monic := by
  rw [generator_eq]
  exact monic_X_pow_add (degree_reflected_lt 32 _)

theorem degree_generator : generator.degree = 32 := by
  rw [generator_eq, degree_add_eq_left_of_degree_lt, degree_X_pow]
  · rfl
  · rw [degree_X_pow]
    exact degree_reflected_lt 32 _

/-- A step moves the remainder up by one power and takes the generator from it if there is a
power of 32. -/
theorem reflected_shift (remainder : UInt32) :
    reflected 32 (shift remainder).toNat + generator * C (remainder.toNat : ZMod 2) =
      X * reflected 32 remainder.toNat := by
  have htwo : (2 : (ZMod 2)[X]) = 0 := CharTwo.two_eq_zero
  have hsubtrahend : reflected 32 (subtrahend remainder).toNat =
      C (remainder.toNat : ZMod 2) * reflected 32 polynomial.toNat := by
    rw [subtrahend, natCast_eq]
    split
    · rw [C_0, zero_mul]
      exact reflected_zero 32
    · rw [C_1, one_mul]
  have hshifted : reflected 32 (remainder.toNat / 2) = X * reflected 31 (remainder.toNat / 2) := by
    have hlt : remainder.toNat < 2 ^ 32 := remainder.toNat_lt
    have hlast : remainder.toNat / 2 / 2 ^ 31 = 0 := by omega
    rw [reflected_succ 31, hlast]
    simp
  have hhalf : (remainder >>> 1).toNat = remainder.toNat / 2 := by
    rw [UInt32.toNat_shiftRight]
    rfl
  rw [shift_eq, UInt32.toNat_xor, reflected_xor, hhalf, hshifted, hsubtrahend,
    reflected_cons 31 remainder.toNat, generator_eq]
  linear_combination (C (remainder.toNat : ZMod 2) * reflected 32 polynomial.toNat) * htwo

/-- The remainder behind the bits of a number. -/
theorem reflected_feedBits (count number : Nat) (remainder : UInt32) :
    ∃ quotient, reflected 32 (feedBits count number remainder).toNat + generator * quotient =
      X ^ count * reflected 32 remainder.toNat + X ^ 32 * reflected count number := by
  induction count generalizing number remainder with
  | zero => exact ⟨0, by simp [feedBits, reflected]⟩
  | succ count ih =>
    obtain ⟨quotient, hquotient⟩ :=
      ih (number / 2) (shift (remainder ^^^ UInt32.ofNat (number % 2)))
    have hstep := reflected_shift (remainder ^^^ UInt32.ofNat (number % 2))
    have hbit : reflected 32 (remainder ^^^ UInt32.ofNat (number % 2)).toNat =
        reflected 32 remainder.toNat + C (number : ZMod 2) * X ^ 31 := by
      rw [UInt32.toNat_xor, reflected_xor, reflected_bit]
    rw [hbit] at hstep
    refine ⟨quotient + X ^ count *
      C ((remainder ^^^ UInt32.ofNat (number % 2)).toNat : ZMod 2), ?_⟩
    rw [feedBits, reflected_cons count]
    linear_combination hquotient + X ^ count * hstep

/-- The remainder behind a stream of bytes. -/
theorem reflected_foldl_feed (bytes : List UInt8) (remainder : UInt32) :
    ∃ quotient, reflected 32 (bytes.foldl feed remainder).toNat + generator * quotient =
      X ^ (8 * bytes.length) * reflected 32 remainder.toNat + X ^ 32 * stream bytes := by
  induction bytes generalizing remainder with
  | nil => exact ⟨0, by simp [stream]⟩
  | cons byte rest ih =>
    obtain ⟨first, hfirst⟩ := reflected_feedBits 8 byte.toNat remainder
    obtain ⟨quotient, hquotient⟩ := ih (feedBits 8 byte.toNat remainder)
    have hfeed : feed remainder byte = feedBits 8 byte.toNat remainder := by
      rw [← feed_ofNat, UInt8.ofNat_toNat]
    refine ⟨quotient + X ^ (8 * rest.length) * first, ?_⟩
    rw [List.foldl_cons, hfeed, stream, List.length_cons, Nat.mul_succ]
    linear_combination hquotient + X ^ (8 * rest.length) * hfirst

/-- The complement of the check is the remainder of the stream. -/
theorem reflected_crc32 (bytes : List UInt8) :
    reflected 32 (~~~crc32 bytes).toNat = remainderOf bytes := by
  obtain ⟨quotient, hquotient⟩ := reflected_foldl_feed bytes 0xFFFFFFFF
  have hdegree : (reflected 32 (bytes.foldl feed 0xFFFFFFFF).toNat).degree < generator.degree := by
    rw [degree_generator]
    exact degree_reflected_lt 32 _
  have hunique := div_modByMonic_unique _ _ generator_monic ⟨hquotient, hdegree⟩
  rw [crc32, UInt32.not_not]
  exact hunique.2.symm

end Checksum

end CommandWord
