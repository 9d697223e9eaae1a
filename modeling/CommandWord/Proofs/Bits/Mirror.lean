import CommandWord.Proofs.Bits.Reversal
import Mathlib.Data.Set.Function

/-!
Reversal as a mirror of the low bits. Bit by bit it exchanges the two ends of the width and drops
whatever lies above, so it undoes itself on every word that fits and reaches the word with all
bits set from that word alone. Turning the masked word around as a whole and shifting it down
again comes to the same, for a width of 0 and of 64 too.
-/

namespace CommandWord

/-- All 64 bits of a word in the opposite order. -/
def mirror (word : UInt64) : UInt64 := ⟨word.toBitVec.reverse⟩

/-- The low bits turned around together with the whole word, and shifted down again. -/
def mirrorBits (value : UInt64) (bits : Nat) : UInt64 :=
  if bits = 0 then 0 else mirror (value &&& lowMask bits) >>> (64 - bits).toUInt64

theorem testBit_mirror (word : UInt64) (i : Nat) :
    (mirror word).toNat.testBit i = (decide (i < 64) && word.toNat.testBit (63 - i)) := by
  change word.toBitVec.reverse.toNat.testBit i = _
  rw [BitVec.testBit_toNat, BitVec.getLsbD_reverse, BitVec.getMsbD_eq_getLsbD]
  rfl

section

variable {bits : Nat} (hbits : bits ≤ 64)

include hbits

theorem testBit_reverseBits (value : UInt64) (i : Nat) :
    (reverseBits value bits).toNat.testBit i =
      (decide (i < bits) && value.toNat.testBit (bits - 1 - i)) := by
  rw [toNat_reverseBits value hbits, testBit_reversal]

theorem reverseBits_eq_mirrorBits (value : UInt64) :
    reverseBits value bits = mirrorBits value bits := by
  apply UInt64.toNat_inj.mp
  by_cases hzero : bits = 0
  · subst hzero
    rfl
  · have hshift : (64 - bits).toUInt64.toNat % 64 = 64 - bits := by
      simp only [Nat.toUInt64, UInt64.toNat_ofNat']
      omega
    rw [mirrorBits, if_neg hzero, UInt64.toNat_shiftRight, hshift]
    apply Nat.eq_of_testBit_eq
    intro i
    rw [testBit_reverseBits hbits, Nat.testBit_shiftRight, testBit_mirror, toNat_and_lowMask,
      Nat.testBit_mod_two_pow]
    by_cases hi : i < bits
    · have hroom : 64 - bits + i < 64 := by omega
      have hplace : 63 - (64 - bits + i) = bits - 1 - i := by omega
      have hkept : bits - 1 - i < bits := by omega
      simp only [hi, hroom, hplace, hkept, decide_true, Bool.true_and]
    · have hout : ¬ 64 - bits + i < 64 := by omega
      simp only [hi, hout, decide_false, Bool.false_and]

theorem reverseBits_lt (value : UInt64) : (reverseBits value bits).toNat < 2 ^ bits := by
  rw [toNat_reverseBits value hbits]
  exact reversal_lt bits value.toNat

/-- Words that agree in their low bits have the same reversal. -/
theorem reverseBits_congr {first second : UInt64}
    (hagree : ∀ i < bits, first.toNat.testBit i = second.toNat.testBit i) :
    reverseBits first bits = reverseBits second bits := by
  apply UInt64.toNat_inj.mp
  apply Nat.eq_of_testBit_eq
  intro i
  rw [testBit_reverseBits hbits, testBit_reverseBits hbits]
  by_cases hi : i < bits
  · rw [hagree (bits - 1 - i) (by omega)]
  · simp only [hi, decide_false, Bool.false_and]

theorem reverseBits_reverseBits (value : UInt64) :
    reverseBits (reverseBits value bits) bits = value &&& lowMask bits := by
  apply UInt64.toNat_inj.mp
  rw [toNat_reverseBits _ hbits, toNat_reverseBits value hbits, reversal_reversal,
    toNat_and_lowMask]

theorem reverseBits_of_lt {word : UInt64} (hword : word.toNat < 2 ^ bits) :
    reverseBits (reverseBits word bits) bits = word := by
  rw [reverseBits_reverseBits hbits, (fits_iff_lt.mpr hword).and_lowMask]

theorem reverseBits_lowMask : reverseBits (lowMask bits) bits = lowMask bits := by
  apply UInt64.toNat_inj.mp
  rw [toNat_reverseBits _ hbits, toNat_lowMask, Nat.min_eq_left hbits, reversal_allOnes]

theorem bijOn_reverseBits :
    Set.BijOn (fun word => reverseBits word bits) {word : UInt64 | word.toNat < 2 ^ bits}
      {word : UInt64 | word.toNat < 2 ^ bits} := by
  have hback : Set.LeftInvOn (fun word => reverseBits word bits)
      (fun word => reverseBits word bits) {word : UInt64 | word.toNat < 2 ^ bits} :=
    fun _ hword => reverseBits_of_lt hbits hword
  have hmaps : Set.MapsTo (fun word => reverseBits word bits)
      {word : UInt64 | word.toNat < 2 ^ bits} {word : UInt64 | word.toNat < 2 ^ bits} :=
    fun word _ => reverseBits_lt hbits word
  exact Set.InvOn.bijOn ⟨hback, hback⟩ hmaps hmaps

theorem reverseBits_eq_lowMask_iff {word : UInt64} (hword : word.toNat < 2 ^ bits) :
    reverseBits word bits = lowMask bits ↔ word = lowMask bits := by
  constructor
  · intro hall
    calc word
        = reverseBits (reverseBits word bits) bits := (reverseBits_of_lt hbits hword).symm
      _ = reverseBits (lowMask bits) bits := by rw [hall]
      _ = lowMask bits := reverseBits_lowMask hbits
  · intro hall
    rw [hall, reverseBits_lowMask hbits]

end

/-- At every width of a word, reversal is the mirror of the low bits: it fits the width, takes each
bit from the other end, sees nothing above the width, undoes itself, and is a bijection of the
words that fit which reaches the word with all bits set only from that word. -/
theorem reverseBits_mirrors_low_bits {bits : Nat} (hbits : bits ≤ 64) :
    (∀ value, reverseBits value bits = mirrorBits value bits) ∧
    (∀ value, (reverseBits value bits).toNat < 2 ^ bits) ∧
    (∀ value, ∀ i < bits,
      (reverseBits value bits).toNat.testBit i = value.toNat.testBit (bits - 1 - i)) ∧
    (∀ first second : UInt64,
      (∀ i < bits, first.toNat.testBit i = second.toNat.testBit i) →
        reverseBits first bits = reverseBits second bits) ∧
    (∀ value, reverseBits (reverseBits value bits) bits = value &&& lowMask bits) ∧
    reverseBits (lowMask bits) bits = lowMask bits ∧
    Set.BijOn (fun word => reverseBits word bits) {word : UInt64 | word.toNat < 2 ^ bits}
      {word : UInt64 | word.toNat < 2 ^ bits} ∧
    ∀ word : UInt64, word.toNat < 2 ^ bits →
      (reverseBits word bits = lowMask bits ↔ word = lowMask bits) := by
  refine ⟨reverseBits_eq_mirrorBits hbits, reverseBits_lt hbits, ?_,
    fun _ _ => reverseBits_congr hbits, reverseBits_reverseBits hbits, reverseBits_lowMask hbits,
    bijOn_reverseBits hbits, fun _ => reverseBits_eq_lowMask_iff hbits⟩
  intro value i hi
  rw [testBit_reverseBits hbits, decide_eq_true hi, Bool.true_and]

/-- The whole word, where nothing is cut off and nothing is shifted. -/
theorem reverseBits_mirrors_whole_word :
    64 ≤ 64 ∧ reverseBits 0x5 64 = 0xA000000000000000 ∧
      reverseBits 0xA000000000000000 64 = 0x5 := by
  obtain ⟨hmirror, -, -, -, htwice, -, -, -⟩ := reverseBits_mirrors_low_bits (Nat.le_refl 64)
  have hfive : reverseBits 0x5 64 = 0xA000000000000000 := (hmirror 0x5).trans (by decide +kernel)
  have hback := htwice 0x5
  rw [hfive] at hback
  exact ⟨Nat.le_refl 64, hfive, hback⟩

end CommandWord
