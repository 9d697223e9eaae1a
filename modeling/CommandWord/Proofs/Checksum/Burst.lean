import CommandWord.Codec.Fingerprint
import Mathlib.Algebra.Order.Ring.Nat
import Mathlib.Data.LawfulXor.Basic

/-!
Burst errors. A step of the check is linear in exclusive or and loses nothing, so two streams
that have left different remainders keep them different for as long as the same bytes follow. A
number of at most 32 bits enters the remainder whole, at whatever bit of the stream it begins.
Two numbers of a stream that differ in none but 32 consecutive bits have different checks.
-/

namespace CommandWord

namespace Checksum

/-- What a step subtracts from the remainder: the polynomial, if the outgoing bit is set. -/
def subtrahend (remainder : UInt32) : UInt32 :=
  if remainder.toNat % 2 = 0 then 0 else polynomial

theorem shift_eq (remainder : UInt32) :
    shift remainder = remainder >>> 1 ^^^ subtrahend remainder := by
  have hlow : remainder &&& 1 = 0 ↔ remainder.toNat % 2 = 0 := by
    rw [← UInt32.toNat_inj, UInt32.toNat_and]
    exact Eq.congr_left (Nat.and_one_is_mod _)
  unfold shift subtrahend
  simp only [hlow]
  split
  · rw [UInt32.xor_zero]
  · rfl

theorem subtrahend_xor (left right : UInt32) :
    subtrahend (left ^^^ right) = subtrahend left ^^^ subtrahend right := by
  have hlow : (left ^^^ right).toNat % 2 = left.toNat % 2 ^^^ right.toNat % 2 := by
    rw [UInt32.toNat_xor]
    exact Nat.xor_mod_two_pow (n := 1)
  simp only [subtrahend, hlow]
  rcases Nat.mod_two_eq_zero_or_one left.toNat with hleft | hleft <;>
    rcases Nat.mod_two_eq_zero_or_one right.toNat with hright | hright <;>
    simp [hleft, hright]

theorem shift_xor (left right : UInt32) :
    shift (left ^^^ right) = shift left ^^^ shift right := by
  rw [shift_eq, shift_eq, shift_eq, UInt32.shiftRight_xor, subtrahend_xor]
  ac_rfl

/-- The polynomial has its highest bit set, which no remainder has behind a step. -/
theorem eq_zero_of_shift_eq_zero {remainder : UInt32} (hzero : shift remainder = 0) :
    remainder = 0 := by
  rw [shift_eq, UInt32.xor_eq_zero_iff, ← UInt32.toNat_inj, UInt32.toNat_shiftRight] at hzero
  have hhalf : remainder.toNat / 2 = (subtrahend remainder).toNat := hzero
  have hlt : remainder.toNat < 2 ^ 32 := remainder.toNat_lt
  rw [← UInt32.toNat_inj]
  by_cases heven : remainder.toNat % 2 = 0
  · rw [subtrahend, if_pos heven] at hhalf
    change remainder.toNat / 2 = 0 at hhalf
    change remainder.toNat = 0
    omega
  · rw [subtrahend, if_neg heven] at hhalf
    change remainder.toNat / 2 = 3988292384 at hhalf
    omega

theorem shifts_xor (count : Nat) (left right : UInt32) :
    shifts count (left ^^^ right) = shifts count left ^^^ shifts count right := by
  induction count generalizing left right with
  | zero => rfl
  | succ count ih => rw [shifts, shift_xor, ih, shifts, shifts]

theorem shifts_zero (count : Nat) : shifts count 0 = 0 := by
  have hself := shifts_xor count 0 0
  rwa [UInt32.xor_self, UInt32.xor_self] at hself

theorem eq_zero_of_shifts_eq_zero {count : Nat} {remainder : UInt32}
    (hzero : shifts count remainder = 0) : remainder = 0 := by
  induction count generalizing remainder with
  | zero => exact hzero
  | succ count ih => exact eq_zero_of_shift_eq_zero (ih hzero)

theorem shifts_injective (count : Nat) : Function.Injective (shifts count) := by
  intro left right heq
  rw [← UInt32.xor_eq_zero_iff, ← shifts_xor] at heq
  exact UInt32.xor_eq_zero_iff.mp (eq_zero_of_shifts_eq_zero heq)

/-- Equal bytes keep different remainders different. -/
theorem foldl_feed_injective (bytes : List UInt8) :
    Function.Injective fun remainder => bytes.foldl feed remainder := by
  induction bytes with
  | nil => exact Function.injective_id
  | cons byte rest ih =>
    intro left right heq
    have hfed : feed left byte = feed right byte := ih heq
    exact (UInt32.xor_left_inj _).mp (shifts_injective 8 hfed)

/-! ### Streams of bits -/

/-- Feed the lowest `count` bits of a number, the lowest first. -/
def feedBits : (count : Nat) → (number : Nat) → UInt32 → UInt32
  | 0, _, remainder => remainder
  | count + 1, number, remainder =>
      feedBits count (number / 2) (shift (remainder ^^^ UInt32.ofNat (number % 2)))

theorem feedBits_add (first second number : Nat) (remainder : UInt32) :
    feedBits (first + second) number remainder =
      feedBits second (number / 2 ^ first) (feedBits first number remainder) := by
  induction first generalizing number remainder with
  | zero => simp [feedBits]
  | succ first ih =>
    rw [Nat.add_right_comm, feedBits, ih, feedBits, Nat.div_div_eq_div_mul, Nat.pow_succ']

/-- Bits beyond those that are fed do not matter. -/
theorem feedBits_mod (count number : Nat) (remainder : UInt32) :
    feedBits count (number % 2 ^ count) remainder = feedBits count number remainder := by
  induction count generalizing number remainder with
  | zero => rfl
  | succ count ih =>
    have hlow : number % 2 ^ (count + 1) % 2 = number % 2 :=
      Nat.mod_mod_of_dvd _ (Nat.pow_dvd_pow 2 (Nat.le_add_left 1 count))
    have hhigh : number % 2 ^ (count + 1) / 2 = number / 2 % 2 ^ count := by
      rw [Nat.pow_succ', Nat.mod_mul_right_div_self]
    rw [feedBits, feedBits, hlow, hhigh, ih]

theorem feedBits_xor (count left right : Nat) (first second : UInt32) :
    feedBits count (left ^^^ right) (first ^^^ second) =
      feedBits count left first ^^^ feedBits count right second := by
  induction count generalizing left right first second with
  | zero => rfl
  | succ count ih =>
    have hlow : UInt32.ofNat ((left ^^^ right) % 2) =
        UInt32.ofNat (left % 2) ^^^ UInt32.ofNat (right % 2) := by
      rw [← UInt32.ofNat_xor]
      exact congrArg UInt32.ofNat (Nat.xor_mod_two_pow (n := 1))
    have hmixed : first ^^^ second ^^^ (UInt32.ofNat (left % 2) ^^^ UInt32.ofNat (right % 2)) =
        first ^^^ UInt32.ofNat (left % 2) ^^^ (second ^^^ UInt32.ofNat (right % 2)) := by
      ac_rfl
    rw [feedBits, hlow, hmixed, shift_xor, Nat.xor_div_two, ih, feedBits, feedBits]

/-- Above the lowest bit a number is only moved down. -/
theorem shift_ofNat_two_mul {number : Nat} (hword : 2 * number < 2 ^ 32) :
    shift (UInt32.ofNat (2 * number)) = UInt32.ofNat number := by
  have hdouble : (UInt32.ofNat (2 * number)).toNat = 2 * number := by
    rw [UInt32.toNat_ofNat', Nat.mod_eq_of_lt hword]
  have hkept : subtrahend (UInt32.ofNat (2 * number)) = 0 := by
    rw [subtrahend, hdouble, if_pos (Nat.mul_mod_right 2 number)]
  rw [shift_eq, hkept, UInt32.xor_zero, ← UInt32.toNat_inj, UInt32.toNat_shiftRight, hdouble,
    UInt32.toNat_ofNat', Nat.mod_eq_of_lt (show number < 2 ^ 32 by omega)]
  exact Nat.mul_div_cancel_left number (by omega)

theorem mod_two_xor_two_mul (number : Nat) : number % 2 ^^^ 2 * (number / 2) = number := by
  apply Nat.eq_of_testBit_eq
  intro i
  cases i with
  | zero => simp
  | succ i => simp [Nat.testBit_succ, Nat.xor_div_two]

/-- A number that fits the remainder can be added to it before any of its bits is fed. -/
theorem feedBits_eq_shifts {count number : Nat} (hcount : number < 2 ^ count)
    (hword : number < 2 ^ 32) (remainder : UInt32) :
    feedBits count number remainder = shifts count (remainder ^^^ UInt32.ofNat number) := by
  induction count generalizing number remainder with
  | zero =>
    obtain rfl : number = 0 := by simpa using hcount
    simp [feedBits, shifts]
  | succ count ih =>
    rw [Nat.pow_succ'] at hcount
    have hhigh : shift (UInt32.ofNat (2 * (number / 2))) = UInt32.ofNat (number / 2) :=
      shift_ofNat_two_mul (by omega)
    calc feedBits (count + 1) number remainder
        = shifts count (shift (remainder ^^^ UInt32.ofNat (number % 2)) ^^^
            UInt32.ofNat (number / 2)) := by
          rw [feedBits, ih (by omega) (by omega)]
      _ = shifts (count + 1) (remainder ^^^ UInt32.ofNat (number % 2) ^^^
            UInt32.ofNat (2 * (number / 2))) := by
          rw [shifts, ← hhigh, ← shift_xor]
      _ = shifts (count + 1) (remainder ^^^ UInt32.ofNat number) := by
          rw [UInt32.xor_assoc, ← UInt32.ofNat_xor, mod_two_xor_two_mul]

theorem feed_ofNat (remainder : UInt32) (number : Nat) :
    feed remainder (UInt8.ofNat number) = feedBits 8 number remainder := by
  have hbyte : (UInt8.ofNat number).toUInt32 = UInt32.ofNat (number % 2 ^ 8) := by
    rw [← UInt32.toNat_inj, UInt8.toNat_toUInt32, UInt8.toNat_ofNat', UInt32.toNat_ofNat']
    omega
  rw [feed, hbyte, ← feedBits_eq_shifts (by omega) (by omega), feedBits_mod]

/-- The bytes of a number, the lowest first, are its bits in ascending order. -/
theorem foldl_feed_littleEndian (count number : Nat) (remainder : UInt32) :
    (littleEndian count number).foldl feed remainder = feedBits (8 * count) number remainder := by
  induction count generalizing number remainder with
  | zero => rfl
  | succ count ih =>
    rw [littleEndian, List.foldl_cons, feed_ofNat, ih, Nat.mul_succ, Nat.add_comm, feedBits_add]
    rfl

/-! ### Bursts -/

/-- The numbers agree in every bit outside the 32 that begin at `start`. -/
def AgreeOutside (start left right : Nat) : Prop :=
  ∀ i, i < start ∨ start + 32 ≤ i → left.testBit i = right.testBit i

/-- The difference of the numbers is a number of 32 bits that begins at `start`. -/
theorem AgreeOutside.xor_eq {start left right : Nat} (hagree : AgreeOutside start left right) :
    (left ^^^ right) / 2 ^ start < 2 ^ 32 ∧ (left ^^^ right) % 2 ^ start = 0 := by
  have hclear : ∀ i, i < start ∨ start + 32 ≤ i → (left ^^^ right).testBit i = false := by
    intro i hi
    rw [Nat.testBit_xor, hagree i hi, Bool.xor_self]
  constructor
  · apply Nat.lt_pow_two_of_testBit
    intro i hi
    rw [Nat.testBit_div_two_pow]
    exact hclear (i + start) (Or.inr (by omega))
  · apply Nat.eq_of_testBit_eq
    intro i
    rw [Nat.testBit_mod_two_pow, Nat.zero_testBit]
    by_cases hi : i < start
    · rw [hclear i (Or.inl hi), Bool.and_false]
    · rw [decide_eq_false hi, Bool.false_and]

/-- A burst that is fed to an empty remainder does not leave it empty. -/
theorem feedBits_burst_ne_zero {count start burst : Nat} (hcount : 2 ^ start * burst < 2 ^ count)
    (hburst : burst < 2 ^ 32) (hne : burst ≠ 0) :
    feedBits count (2 ^ start * burst) 0 ≠ 0 := by
  have hstart : start < count := by
    have hle : 2 ^ start ≤ 2 ^ start * burst := Nat.le_mul_of_pos_right _ (by omega)
    exact (Nat.pow_lt_pow_iff_right (by decide)).mp (Nat.lt_of_le_of_lt hle hcount)
  obtain ⟨rest, rfl⟩ : ∃ rest, count = start + rest := ⟨count - start, by omega⟩
  have hrest : burst < 2 ^ rest := by
    rw [Nat.pow_add] at hcount
    exact Nat.lt_of_mul_lt_mul_left hcount
  -- nothing but zeros comes before the burst
  have hbefore : feedBits start (2 ^ start * burst) 0 = 0 := by
    rw [← feedBits_mod, Nat.mul_mod_right, feedBits_eq_shifts (Nat.two_pow_pos _) (by omega)]
    exact shifts_zero start
  intro hzero
  rw [feedBits_add, hbefore, Nat.mul_div_cancel_left _ (Nat.two_pow_pos _),
    feedBits_eq_shifts hrest hburst, UInt32.zero_xor] at hzero
  have hword := congrArg UInt32.toNat (eq_zero_of_shifts_eq_zero hzero)
  rw [UInt32.toNat_ofNat', Nat.mod_eq_of_lt hburst] at hword
  exact hne hword

/-- Numbers that differ within 32 consecutive bits change the check of any bytes around them. -/
theorem crc32_ne_of_agreeOutside {count start left right : Nat} (hleft : left < 2 ^ (8 * count))
    (hright : right < 2 ^ (8 * count)) (hagree : AgreeOutside start left right)
    (hne : left ≠ right) (front back : List UInt8) :
    crc32 (front ++ littleEndian count left ++ back) ≠
      crc32 (front ++ littleEndian count right ++ back) := by
  obtain ⟨hburst, hclear⟩ := hagree.xor_eq
  have hdifference : 2 ^ start * ((left ^^^ right) / 2 ^ start) = left ^^^ right :=
    Nat.mul_div_cancel' (Nat.dvd_of_mod_eq_zero hclear)
  have hnonzero : (left ^^^ right) / 2 ^ start ≠ 0 := by
    intro hzero
    rw [hzero, Nat.mul_zero] at hdifference
    exact hne (xor_eq_zero_iff.mp hdifference.symm)
  intro hcrc
  simp only [crc32, List.foldl_append, UInt32.not_inj] at hcrc
  have hfed := foldl_feed_injective back hcrc
  rw [foldl_feed_littleEndian, foldl_feed_littleEndian, ← UInt32.xor_eq_zero_iff, ← feedBits_xor,
    UInt32.xor_self, ← hdifference] at hfed
  refine feedBits_burst_ne_zero ?_ hburst hnonzero hfed
  rw [hdifference]
  exact Nat.xor_lt_two_pow hleft hright

end Checksum

end CommandWord
