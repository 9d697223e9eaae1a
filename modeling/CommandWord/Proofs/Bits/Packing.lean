import CommandWord.Bits.Lemmas
import CommandWord.Bits.Reader
import CommandWord.Bits.Writer
import Mathlib.Algebra.BigOperators.Fin
import Mathlib.Data.List.Forall2

/-!
Packed values as one number in a mixed radix: the value at place `i` is a digit below
`2 ^ width i`. A writer with room adds the next digit, a reader splits it off again, and
digits are determined by their number. Nothing here depends on which word holds the digits.
-/

namespace CommandWord

/-- One value for each width, each below its power of two. -/
def Fill (widths : List Nat) (values : List UInt64) : Prop :=
  List.Forall₂ (fun width value => value.toNat < 2 ^ width) widths values

instance (widths : List Nat) (values : List UInt64) : Decidable (Fill widths values) := by
  unfold Fill
  infer_instance

/-- The number that the values spell, the first value lowest. -/
def packed : List Nat → List UInt64 → Nat
  | width :: widths, value :: values => value.toNat + 2 ^ width * packed widths values
  | _, _ => 0

theorem Fill.length_eq {widths : List Nat} {values : List UInt64} (hfill : Fill widths values) :
    widths.length = values.length :=
  List.Forall₂.length_eq hfill

theorem Fill.exists_width {widths : List Nat} {values : List UInt64} (hfill : Fill widths values)
    {value : UInt64} (hmem : value ∈ values) : ∃ width ∈ widths, value.toNat < 2 ^ width := by
  induction hfill with
  | nil => contradiction
  | @cons width first widths values hfirst _ ih =>
    rcases List.mem_cons.mp hmem with rfl | hrest
    · exact ⟨width, List.mem_cons_self, hfirst⟩
    · obtain ⟨other, hother, hlt⟩ := ih hrest
      exact ⟨other, List.mem_cons_of_mem width hother, hlt⟩

theorem packed_lt {widths : List Nat} {values : List UInt64} (hfill : Fill widths values) :
    packed widths values < 2 ^ widths.sum := by
  induction hfill with
  | nil => simp [packed]
  | @cons width value widths values hvalue _ ih =>
    have hrest : 2 ^ width * (packed widths values + 1) ≤ 2 ^ width * 2 ^ widths.sum :=
      Nat.mul_le_mul_left _ ih
    rw [packed, List.sum_cons, Nat.pow_add]
    rw [Nat.mul_add] at hrest
    omega

/-- The digits of a number in a given radix are unique. -/
theorem packed_injective {widths : List Nat} {left right : List UInt64}
    (hleft : Fill widths left) (hright : Fill widths right)
    (heq : packed widths left = packed widths right) : left = right := by
  induction hleft generalizing right with
  | nil =>
    cases hright
    rfl
  | @cons width value widths values hvalue _ ih =>
    obtain ⟨other, others, hother, hothers, rfl⟩ := List.forall₂_cons_left_iff.mp hright
    simp only [packed] at heq
    have hlow : value.toNat = other.toNat := by
      have hmod := congrArg (· % 2 ^ width) heq
      simpa [Nat.mod_eq_of_lt hvalue, Nat.mod_eq_of_lt hother] using hmod
    have hhigh : packed widths values = packed widths others := by
      rw [hlow] at heq
      exact Nat.eq_of_mul_eq_mul_left (Nat.two_pow_pos width) (Nat.add_left_cancel heq)
    rw [UInt64.toNat_inj.mp hlow, ih hothers hhigh]

theorem packed_append {widths others : List Nat} {values more : List UInt64}
    (hlength : widths.length = values.length) :
    packed (widths ++ others) (values ++ more) =
      packed widths values + 2 ^ widths.sum * packed others more := by
  induction widths generalizing values with
  | nil =>
    obtain rfl := List.length_eq_zero_iff.mp hlength.symm
    simp [packed]
  | cons width widths ih =>
    cases values with
    | nil => simp at hlength
    | cons value values =>
      have hrest : widths.length = values.length := by simpa using hlength
      simp only [List.cons_append, packed, ih hrest]
      rw [List.sum_cons, Nat.pow_add, Nat.mul_add, Nat.mul_assoc, Nat.add_assoc]

/-- The number that values spell is the sum of each value at the bit where its field begins. -/
theorem packed_eq_sum {widths : List Nat} {values : List UInt64}
    (hlength : widths.length = values.length) :
    packed widths values =
      ∑ i : Fin values.length, values[i].toNat * 2 ^ (widths.take i).sum := by
  induction widths generalizing values with
  | nil =>
    obtain rfl := List.length_eq_zero_iff.mp hlength.symm
    rfl
  | cons width widths ih =>
    cases values with
    | nil => simp at hlength
    | cons value values =>
      have hrest : widths.length = values.length := by simpa using hlength
      have hsplit : ∑ i : Fin (value :: values).length,
            (value :: values)[i].toNat * 2 ^ ((width :: widths).take i).sum =
          value.toNat * 2 ^ 0 +
            ∑ i : Fin values.length, values[i].toNat * 2 ^ (width :: widths.take i).sum :=
        Fin.sum_univ_succ _
      rw [hsplit, packed, ih hrest, Finset.mul_sum, Nat.pow_zero, Nat.mul_one]
      congr 1
      apply Finset.sum_congr rfl
      intro i _
      rw [List.sum_cons, Nat.pow_add, Nat.mul_left_comm]

/-- A digit split off the bits of a number from `start` on, in front of the digits above it. -/
theorem div_two_pow_eq_packed_cons {number start width : Nat} {widths : List Nat} {value : UInt64}
    {values : List UInt64} (hvalue : value.toNat = number / 2 ^ start % 2 ^ width)
    (hrest : number / 2 ^ (start + width) =
      packed widths values + 2 ^ widths.sum * (number / 2 ^ (start + width + widths.sum))) :
    number / 2 ^ start = packed (width :: widths) (value :: values) +
      2 ^ (width :: widths).sum * (number / 2 ^ (start + (width :: widths).sum)) := by
  have hsplit := Nat.mod_add_div (number / 2 ^ start) (2 ^ width)
  rw [Nat.div_div_eq_div_mul, ← Nat.pow_add, hrest, ← hvalue] at hsplit
  rw [← hsplit, packed, List.sum_cons, Nat.pow_add 2 width, Nat.mul_add, Nat.mul_assoc,
    Nat.add_assoc value.toNat, Nat.add_assoc start]

namespace BitWriter

/-- At most 64 bits have been written, and no others are set. -/
structure Valid (writer : BitWriter) : Prop where
  length_le : writer.length ≤ 64
  word_lt : writer.word.toNat < 2 ^ writer.length

theorem empty_valid : empty.Valid := ⟨by decide, by decide⟩

/-- Setting fresh bits adds their number. -/
theorem toNat_or_shiftLeft {word value : UInt64} {length width : Nat}
    (hword : word.toNat < 2 ^ length) (hvalue : value.toNat < 2 ^ width)
    (hlength : length < 64) (hroom : length + width ≤ 64) :
    (word ||| value <<< length.toUInt64).toNat = word.toNat + 2 ^ length * value.toNat := by
  have hamount : length.toUInt64.toNat % 64 = length := by
    simp only [Nat.toUInt64, UInt64.toNat_ofNat']
    omega
  have hshifted : value.toNat * 2 ^ length < 2 ^ 64 := by
    calc value.toNat * 2 ^ length < 2 ^ width * 2 ^ length :=
          Nat.mul_lt_mul_of_pos_right hvalue (Nat.two_pow_pos length)
      _ = 2 ^ (length + width) := by rw [← Nat.pow_add, Nat.add_comm]
      _ ≤ 2 ^ 64 := Nat.pow_le_pow_right (by omega) hroom
  rw [UInt64.toNat_or, UInt64.toNat_shiftLeft, hamount, Nat.shiftLeft_eq,
    Nat.mod_eq_of_lt hshifted, ← Nat.shiftLeft_eq, Nat.or_comm,
    ← Nat.shiftLeft_add_eq_or_of_lt hword, Nat.shiftLeft_eq, Nat.mul_comm, Nat.add_comm]

/-- A call that fails leaves the writer as it was. -/
theorem call_of_error {writer : BitWriter} {value : UInt64} {width : Nat} {cause : BitError}
    (hcall : (writer.call value width).1 = .error cause) :
    (writer.call value width).2 = writer := by
  unfold call at hcall ⊢
  split_ifs at hcall ⊢ <;> rfl

theorem write_eq (writer : BitWriter) (value : UInt64) (width : Nat) :
    writer.write value width =
      if 64 - writer.length < width then .error (.insufficientBits width (64 - writer.length))
      else if ¬ Fits value width then .error (.valueTooWide value width)
      else if width = 0 then .ok writer
      else .ok ⟨writer.word ||| value <<< writer.length.toUInt64, writer.length + width⟩ := by
  unfold write call
  split_ifs <;> rfl

/-- With room, a value of the right size is written above what is there. -/
theorem write_of_lt {writer : BitWriter} (hvalid : writer.Valid) {value : UInt64} {width : Nat}
    (hroom : writer.length + width ≤ 64) (hvalue : value.toNat < 2 ^ width) :
    ∃ next, writer.write value width = .ok next ∧ next.Valid ∧
      next.length = writer.length + width ∧
      next.word.toNat = writer.word.toNat + 2 ^ writer.length * value.toNat := by
  have hfits : Fits value width := fits_iff_lt.mpr hvalue
  rw [write_eq, if_neg (show ¬ 64 - writer.length < width by omega), if_neg (not_not.mpr hfits)]
  by_cases hwidth : width = 0
  · subst hwidth
    have hzero : value.toNat = 0 := by simpa using hvalue
    exact ⟨writer, by simp, hvalid, rfl, by simp [hzero]⟩
  · have hsum := toNat_or_shiftLeft hvalid.word_lt hvalue (by omega) hroom
    refine ⟨_, if_neg hwidth, ⟨hroom, ?_⟩, rfl, hsum⟩
    have hrest : 2 ^ writer.length * (value.toNat + 1) ≤ 2 ^ writer.length * 2 ^ width :=
      Nat.mul_le_mul_left _ hvalue
    have hword := hvalid.word_lt
    rw [Nat.mul_add] at hrest
    simp only [hsum, Nat.pow_add]
    omega

/-- With room, a value that is too large is the only fault. -/
theorem write_of_le {writer : BitWriter} {value : UInt64} {width : Nat}
    (hroom : writer.length + width ≤ 64) (hvalue : 2 ^ width ≤ value.toNat) :
    writer.write value width = .error (.valueTooWide value width) := by
  have hfits : ¬ Fits value width := by
    rw [fits_iff_lt]
    omega
  rw [write_eq, if_neg (show ¬ 64 - writer.length < width by omega), if_pos hfits]

end BitWriter

namespace BitReader

theorem toNat_shiftRight {word : UInt64} {position : Nat} (hposition : position < 64) :
    (word >>> position.toUInt64).toNat = word.toNat / 2 ^ position := by
  have hamount : position.toUInt64.toNat % 64 = position := by
    simp only [Nat.toUInt64, UInt64.toNat_ofNat']
    omega
  rw [UInt64.toNat_shiftRight, hamount, Nat.shiftRight_eq_div_pow]

/-- A call that fails leaves the reader as it was. -/
theorem call_of_error {reader : BitReader} {width : Nat} {cause : BitError}
    (hcall : (reader.call width).1 = .error cause) : (reader.call width).2 = reader := by
  unfold call at hcall ⊢
  split_ifs at hcall ⊢
  rfl

theorem read_eq (reader : BitReader) (width : Nat) :
    reader.read width =
      if 64 - reader.position < width then
        .error (.insufficientBits width (64 - reader.position))
      else if width = 0 then .ok (0, reader)
      else .ok (reader.word >>> reader.position.toUInt64 &&& lowMask width,
        ⟨reader.word, reader.position + width⟩) := by
  unfold read call
  split_ifs <;> rfl

/-- A read within the word yields its digit and moves on by the width. -/
theorem read_of_le {reader : BitReader} {width : Nat} (hroom : reader.position + width ≤ 64) :
    ∃ value, reader.read width = .ok (value, ⟨reader.word, reader.position + width⟩) ∧
      value.toNat = reader.word.toNat / 2 ^ reader.position % 2 ^ width := by
  rw [read_eq, if_neg (show ¬ 64 - reader.position < width by omega)]
  by_cases hwidth : width = 0
  · subst hwidth
    exact ⟨0, by simp, by simp [Nat.mod_one]⟩
  · refine ⟨_, if_neg hwidth, ?_⟩
    rw [toNat_and_lowMask, toNat_shiftRight (by omega)]

theorem skip_of_le {reader : BitReader} {width : Nat} (hroom : reader.position + width ≤ 64) :
    reader.skip width = .ok ⟨reader.word, reader.position + width⟩ := by
  obtain ⟨value, hread, -⟩ := read_of_le hroom
  rw [skip, hread]
  rfl

/-- Reads within the word yield digits of what has not been read. -/
theorem readAll_of_le {widths : List Nat} {reader : BitReader}
    (hroom : reader.position + widths.sum ≤ 64) :
    ∃ values, reader.readAll widths =
        .ok (values, ⟨reader.word, reader.position + widths.sum⟩) ∧
      Fill widths values ∧
      reader.word.toNat / 2 ^ reader.position = packed widths values +
        2 ^ widths.sum * (reader.word.toNat / 2 ^ (reader.position + widths.sum)) := by
  induction widths generalizing reader with
  | nil => exact ⟨[], rfl, .nil, by simp [packed]⟩
  | cons width widths ih =>
    rw [List.sum_cons] at hroom
    have hfirst : reader.position + width ≤ 64 := by omega
    have hrest : (BitReader.mk reader.word (reader.position + width)).position +
        widths.sum ≤ 64 := by
      simp only
      omega
    obtain ⟨value, hread, hvalue⟩ := read_of_le hfirst
    obtain ⟨values, hreads, hfill, hpacked⟩ := ih hrest
    simp only at hreads hpacked
    have hdigit : value.toNat < 2 ^ width := by
      rw [hvalue]
      exact Nat.mod_lt _ (Nat.two_pow_pos width)
    refine ⟨value :: values, ?_, .cons hdigit hfill, ?_⟩
    · simp [readAll, hread, hreads, bind, Except.bind, pure, Except.pure, Nat.add_assoc]
    · exact div_two_pow_eq_packed_cons hvalue hpacked

theorem toNat_remainder {reader : BitReader} :
    reader.remainder.toNat = reader.word.toNat / 2 ^ reader.position := by
  unfold remainder
  split
  next hall =>
    have hword : reader.word.toNat < 2 ^ reader.position :=
      Nat.lt_of_lt_of_le reader.word.toNat_lt (Nat.pow_le_pow_right (by omega) hall)
    rw [Nat.div_eq_of_lt hword]
    rfl
  next hsome => exact toNat_shiftRight (by omega)

end BitReader

/-- Every number that the widths have room for is spelled by values. -/
theorem exists_packed_eq {widths : List Nat} (hword : widths.sum ≤ 64) {number : Nat}
    (hnumber : number < 2 ^ widths.sum) :
    ∃ values, Fill widths values ∧ packed widths values = number := by
  have hroom : (BitReader.ofWord (UInt64.ofNat number)).position + widths.sum ≤ 64 := by
    rwa [BitReader.ofWord, Nat.zero_add]
  obtain ⟨values, -, hfill, hpacked⟩ := BitReader.readAll_of_le hroom
  have hsmall : number < 2 ^ 64 :=
    Nat.lt_of_lt_of_le hnumber (Nat.pow_le_pow_right (by omega) hword)
  have hread : (UInt64.ofNat number).toNat = number := by
    rw [UInt64.toNat_ofNat', Nat.mod_eq_of_lt hsmall]
  simp only [BitReader.ofWord, hread, Nat.zero_add, Nat.pow_zero, Nat.div_one,
    Nat.div_eq_of_lt hnumber, Nat.mul_zero, Nat.add_zero] at hpacked
  exact ⟨values, hfill, hpacked.symm⟩

end CommandWord
