import CommandWord.Bits.Lemmas

/-!
Reversal loses nothing: numbers of the same number of bits have different reversals, and the
number whose bits are all set is the only one that reversal takes to itself with all bits set.
Bit by bit a reversal is the number read from the other end, so a second one gives the number
back.
-/

namespace CommandWord

theorem reversal_succ (bits value : Nat) :
    reversal (bits + 1) value = 2 ^ bits * (value % 2) + reversal bits (value / 2) := by
  rw [reversal, Nat.shiftLeft_eq, Nat.mul_comm]

theorem reversal_injective {bits left right : Nat} (hleft : left < 2 ^ bits)
    (hright : right < 2 ^ bits) (heq : reversal bits left = reversal bits right) :
    left = right := by
  induction bits generalizing left right with
  | zero =>
    simp only [Nat.pow_zero] at hleft hright
    omega
  | succ bits ih =>
    have hlow := reversal_lt bits (left / 2)
    have hlow' := reversal_lt bits (right / 2)
    rw [reversal_succ, reversal_succ] at heq
    have hbit : left % 2 = right % 2 := by
      have hdiv := congrArg (· / 2 ^ bits) heq
      simpa [Nat.mul_add_div (Nat.two_pow_pos bits), Nat.div_eq_of_lt hlow,
        Nat.div_eq_of_lt hlow'] using hdiv
    rw [hbit] at heq
    have hrest : left / 2 = right / 2 :=
      ih (by omega) (by omega) (Nat.add_left_cancel heq)
    omega

theorem reversal_allOnes (bits : Nat) : reversal bits (2 ^ bits - 1) = 2 ^ bits - 1 := by
  induction bits with
  | zero => rfl
  | succ bits ih =>
    have hpos := Nat.two_pow_pos bits
    have hbit : (2 ^ (bits + 1) - 1) % 2 = 1 := by omega
    have hrest : (2 ^ (bits + 1) - 1) / 2 = 2 ^ bits - 1 := by omega
    rw [reversal_succ, hbit, hrest, ih]
    omega

theorem reversal_eq_allOnes_iff {bits value : Nat} (hvalue : value < 2 ^ bits) :
    reversal bits value = 2 ^ bits - 1 ↔ value = 2 ^ bits - 1 := by
  constructor
  · intro heq
    have hpos := Nat.two_pow_pos bits
    exact reversal_injective hvalue (by omega) (heq.trans (reversal_allOnes bits).symm)
  · rintro rfl
    exact reversal_allOnes bits

/-- A bit of the reversal is the bit of the number that is as far from the other end. -/
theorem testBit_reversal (bits value i : Nat) :
    (reversal bits value).testBit i = (decide (i < bits) && value.testBit (bits - 1 - i)) := by
  induction bits generalizing value with
  | zero => simp [reversal]
  | succ bits ih =>
    rw [reversal_succ, Nat.testBit_two_pow_mul_add _ (reversal_lt bits (value / 2))]
    by_cases hlow : i < bits
    · have hplace : bits - 1 - i + 1 = bits + 1 - 1 - i := by omega
      rw [if_pos hlow, ih, ← Nat.testBit_succ, Nat.succ_eq_add_one, hplace]
      simp only [hlow, Nat.lt_succ_of_lt hlow, decide_true]
    · rw [if_neg hlow]
      by_cases htop : i = bits
      · subst htop
        simp [Nat.testBit_zero]
      · have hhigh : ¬ i < bits + 1 := by omega
        have hbit : value % 2 < 2 ^ (i - bits) := by
          have hpow : 2 ^ 1 ≤ 2 ^ (i - bits) := Nat.pow_le_pow_right (by omega) (by omega)
          omega
        rw [Nat.testBit_lt_two_pow hbit]
        simp only [hhigh, decide_false, Bool.false_and]

theorem reversal_reversal (bits value : Nat) :
    reversal bits (reversal bits value) = value % 2 ^ bits := by
  apply Nat.eq_of_testBit_eq
  intro i
  rw [testBit_reversal, testBit_reversal, Nat.testBit_mod_two_pow]
  by_cases hi : i < bits
  · have hplace : bits - 1 - (bits - 1 - i) = i := by omega
    have hmirror : bits - 1 - i < bits := by omega
    simp only [hi, hmirror, hplace, decide_true, Bool.true_and]
  · simp only [hi, decide_false, Bool.false_and]

/-- The code of a number that the bits can hold is its reversal. -/
theorem toNat_reverseBits_toUInt64 {bits number : Nat} (hbits : bits ≤ 64)
    (hnumber : number < 2 ^ bits) :
    (reverseBits number.toUInt64 bits).toNat = reversal bits number := by
  have hpow : 2 ^ bits ≤ 2 ^ 64 := Nat.pow_le_pow_right (by omega) hbits
  have hword : number.toUInt64.toNat = number := by
    simp only [Nat.toUInt64, UInt64.toNat_ofNat']
    exact Nat.mod_eq_of_lt (by omega)
  rw [toNat_reverseBits _ hbits, hword]

theorem reverseBits_toUInt64_injective {bits left right : Nat} (hbits : bits ≤ 64)
    (hleft : left < 2 ^ bits) (hright : right < 2 ^ bits)
    (heq : reverseBits left.toUInt64 bits = reverseBits right.toUInt64 bits) : left = right := by
  apply reversal_injective hleft hright
  rw [← toNat_reverseBits_toUInt64 hbits hleft, heq, toNat_reverseBits_toUInt64 hbits hright]

end CommandWord
