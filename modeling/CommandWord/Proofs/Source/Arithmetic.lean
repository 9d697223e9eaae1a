import CommandWord.Bits.Lemmas
import CommandWord.Source.WordArithmetic
import Mathlib.Algebra.Order.Ring.Nat

/-!
Words of a target as numbers. Below a power of two both kinds of words compute without a fault:
unsigned words up to their size, signed words up to their sign.
-/

namespace CommandWord

namespace WordArithmetic

/-- Numbers below `2 ^ bits` are written and counted up and down by one without a fault, and all
other words are negative. Shifts by less than the size drop what leaves the word. -/
structure Exact {size : Nat} (arithmetic : WordArithmetic size) (bits : Nat) : Prop where
  le_size : bits ≤ size
  literal : ∀ {value : Nat}, value < 2 ^ bits →
    arithmetic.literal value = .ok (BitVec.ofNat size value)
  shiftLeft : ∀ (word : BitVec size) {count : Nat}, count < size →
    arithmetic.shiftLeft word count = .ok (word <<< count)
  shiftRight : ∀ (word : BitVec size) {count : Nat}, count < size →
    arithmetic.shiftRight word count = .ok (word >>> count)
  successor : ∀ {word : BitVec size}, word.toNat + 1 < 2 ^ bits →
    arithmetic.successor word = .ok (word + 1)
  predecessor : ∀ {word : BitVec size}, word.toNat < 2 ^ bits →
    arithmetic.predecessor word = .ok (word - 1)
  isNegative : ∀ word : BitVec size, arithmetic.isNegative word = true ↔ 2 ^ bits ≤ word.toNat

theorem Exact.toNat_ofNat {size bits value : Nat} {arithmetic : WordArithmetic size}
    (hexact : arithmetic.Exact bits) (hvalue : value < 2 ^ bits) :
    (BitVec.ofNat size value).toNat = value := by
  have hpow : 2 ^ bits ≤ 2 ^ size := Nat.pow_le_pow_right (by omega) hexact.le_size
  rw [BitVec.toNat_ofNat, Nat.mod_eq_of_lt (by omega)]

theorem Exact.lowMask_lt {size bits count : Nat} {arithmetic : WordArithmetic size}
    (hexact : arithmetic.Exact bits) (hsize : size ≤ 64) (hcount : count ≤ bits) :
    (lowMask count).toNat < 2 ^ bits := by
  have hle := hexact.le_size
  have hpow : 2 ^ count ≤ 2 ^ bits := Nat.pow_le_pow_right (by omega) hcount
  have hpos := Nat.two_pow_pos count
  rw [toNat_lowMask, Nat.min_eq_left (by omega)]
  omega

theorem unsigned_exact (size : Nat) : (unsigned size).Exact size where
  le_size := Nat.le_refl size
  literal hvalue := by
    simp [unsigned, faultIf, Nat.mod_eq_of_lt hvalue]
  shiftLeft word count hcount := by
    simp [unsigned, faultIf, Nat.not_le.mpr hcount]
  shiftRight word count hcount := by
    simp [unsigned, faultIf, Nat.not_le.mpr hcount]
  successor {word} hword := by
    have hone : (1 : BitVec size).toNat ≤ 1 := Nat.mod_le 1 _
    have hroom : BitVec.uaddOverflow word 1 = false := by
      rw [BitVec.uaddOverflow, decide_eq_false_iff_not]
      omega
    simp only [unsigned, faultIf, hroom, Bool.false_eq_true, if_false]
  predecessor _ := rfl
  isNegative word := by
    simp [unsigned, word.isLt]

/-- A signed word below its sign bit is the number that its bits spell. -/
theorem toInt_of_lt {size : Nat} {word : BitVec size} (hword : word.toNat < 2 ^ (size - 1)) :
    word.toInt = word.toNat := by
  apply BitVec.toInt_eq_toNat_of_msb
  rw [BitVec.msb_eq_decide, decide_eq_false_iff_not]
  omega

theorem signed_exact {size : Nat} (hsize : 2 ≤ size) : (signed size).Exact (size - 1) where
  le_size := Nat.sub_le size 1
  literal {value} hvalue := by
    have hpow : 2 ^ (size - 1) ≤ 2 ^ size := Nat.pow_le_pow_right (by omega) (Nat.sub_le size 1)
    have hnat : (BitVec.ofNat size value).toNat = value := by
      rw [BitVec.toNat_ofNat, Nat.mod_eq_of_lt (by omega)]
    have hint : (BitVec.ofNat size value).toInt = value := by
      rw [toInt_of_lt (by omega), hnat]
    simp [signed, faultIf, hint]
  shiftLeft word count hcount := by
    simp [signed, Nat.mod_eq_of_lt hcount]
  shiftRight word count hcount := by
    simp [signed, Nat.mod_eq_of_lt hcount]
  successor {word} hword := by
    have hone : (1 : BitVec size).toInt = 1 := BitVec.toInt_one (by omega)
    have hint : word.toInt = word.toNat := toInt_of_lt (by omega)
    have hroom : BitVec.saddOverflow word 1 = false := by
      have hcast : ((2 ^ (size - 1) : Nat) : Int) = 2 ^ (size - 1) := Int.natCast_pow 2 (size - 1)
      simp only [BitVec.saddOverflow, hone, hint, Bool.or_eq_false_iff, decide_eq_false_iff_not,
        ← hcast]
      omega
    simp only [signed, faultIf, hroom, Bool.false_eq_true, if_false]
  predecessor {word} hword := by
    have hone : (1 : BitVec size).toInt = 1 := BitVec.toInt_one (by omega)
    have hint := toInt_of_lt hword
    have hpos := Nat.two_pow_pos (size - 1)
    have hroom : BitVec.ssubOverflow word 1 = false := by
      have hcast : ((2 ^ (size - 1) : Nat) : Int) = 2 ^ (size - 1) := Int.natCast_pow 2 (size - 1)
      simp only [BitVec.ssubOverflow, hone, hint, Bool.or_eq_false_iff, decide_eq_false_iff_not,
        ← hcast]
      omega
    simp only [signed, faultIf, hroom, Bool.false_eq_true, if_false]
  isNegative word := by
    simp [signed, BitVec.msb_eq_decide]

end WordArithmetic

/-! ### Words as numbers -/

section Words

variable {size : Nat}

theorem ushiftRight_eq_zero_iff {word : BitVec size} {count : Nat} :
    word >>> count = 0 ↔ word.toNat < 2 ^ count := by
  rw [← BitVec.toNat_inj, BitVec.toNat_ushiftRight, Nat.shiftRight_eq_div_pow]
  exact Nat.div_eq_zero_iff_lt (Nat.two_pow_pos count)

theorem toNat_shiftLeft {word : BitVec size} {shift width : Nat} (hword : word.toNat < 2 ^ width)
    (hroom : shift + width ≤ size) : (word <<< shift).toNat = 2 ^ shift * word.toNat := by
  have hlt : 2 ^ shift * word.toNat < 2 ^ size := by
    calc 2 ^ shift * word.toNat < 2 ^ shift * 2 ^ width :=
          Nat.mul_lt_mul_of_pos_left hword (Nat.two_pow_pos shift)
      _ = 2 ^ (shift + width) := (Nat.pow_add 2 shift width).symm
      _ ≤ 2 ^ size := Nat.pow_le_pow_right (by omega) hroom
  rw [BitVec.toNat_shiftLeft, Nat.shiftLeft_eq, Nat.mul_comm, Nat.mod_eq_of_lt hlt]

/-- Words that do not share a bit are put together as a sum. -/
theorem toNat_or_of_lt {low high : BitVec size} {shift number : Nat} (hlow : low.toNat < 2 ^ shift)
    (hhigh : high.toNat = 2 ^ shift * number) :
    (low ||| high).toNat = low.toNat + high.toNat := by
  rw [BitVec.toNat_or, hhigh, Nat.or_comm, ← Nat.two_pow_add_eq_or_of_lt hlow, Nat.add_comm]

/-- A word under the mask of its lowest bits is the number of these bits. -/
theorem toNat_and_ofNat_lowMask (hsize : size ≤ 64) {count : Nat} (hcount : count ≤ size)
    (word : BitVec size) :
    (word &&& BitVec.ofNat size (lowMask count).toNat).toNat = word.toNat % 2 ^ count := by
  have hpow : 2 ^ count ≤ 2 ^ size := Nat.pow_le_pow_right (by omega) hcount
  have hpos := Nat.two_pow_pos count
  rw [BitVec.toNat_and, BitVec.toNat_ofNat, toNat_lowMask, Nat.min_eq_left (by omega),
    Nat.mod_eq_of_lt (by omega : 2 ^ count - 1 < 2 ^ size), Nat.and_two_pow_sub_one_eq_mod]

end Words

/-- A word of a target, read without regard to a sign, as a word of the codec. -/
def unsignedWord {size : Nat} (word : BitVec size) : UInt64 :=
  UInt64.ofNat word.toNat

theorem toNat_unsignedWord {size : Nat} (hsize : size ≤ 64) (word : BitVec size) :
    (unsignedWord word).toNat = word.toNat := by
  have hpow : 2 ^ size ≤ 2 ^ 64 := Nat.pow_le_pow_right (by omega) hsize
  have hword := word.isLt
  simp only [unsignedWord, UInt64.toNat_ofNat']
  exact Nat.mod_eq_of_lt (by omega)

end CommandWord
