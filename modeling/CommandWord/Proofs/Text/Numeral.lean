import CommandWord.Proofs.Text.Spelling
import CommandWord.Text
import Mathlib.Data.List.Forall2
import Mathlib.Data.Nat.Digits.Defs

/-!
Numbers spelled in digits. A numeral is one or more digits of a base, the most significant first;
letters may be in either case, and zeros may stand in front. It stands for one number, and the
digits that a number is written with, filled up with zeros or not, are a numeral for it.
-/

namespace CommandWord.Digits

variable {base number other : Nat} {c : Char} {text : List Char}

/-- The character is a digit of the base and has this value. -/
def IsDigit (base : Nat) (c : Char) (value : Nat) : Prop :=
  value < base ∧ c.toLower = value.digitChar

/-- One or more digits, the most significant first, and the number that they stand for. -/
def IsNumeral (base : Nat) (text : List Char) (number : Nat) : Prop :=
  ∃ digits, digits ≠ [] ∧ List.Forall₂ (IsDigit base) text digits ∧
    number = Nat.ofDigits base digits.reverse

/-! ### Digits -/

theorem toNat_digitChar {value : Nat} (hvalue : value < 16) :
    value.digitChar.toNat = if value < 10 then 48 + value else 87 + value := by
  decide +revert

theorem toNat_toLower (c : Char) :
    c.toLower.toNat = if 65 ≤ c.toNat ∧ c.toNat ≤ 90 then c.toNat + 32 else c.toNat := by
  unfold Char.toLower
  split
  next hupper =>
    obtain ⟨hleft, hright⟩ := hupper
    rw [ge_iff_le, UInt32.le_iff_toNat_le] at hleft
    rw [UInt32.le_iff_toNat_le] at hright
    have hletter : 65 ≤ c.toNat ∧ c.toNat ≤ 90 := ⟨hleft, hright⟩
    rw [if_pos hletter]
    change (c.val + 32).toNat = c.val.toNat + 32
    have hsum : c.val.toNat + (32 : UInt32).toNat < 2 ^ 32 :=
      Nat.lt_of_le_of_lt (Nat.add_le_add_right hletter.2 _) (by decide)
    rw [UInt32.toNat_add, Nat.mod_eq_of_lt hsum]
    rfl
  next hother =>
    rw [if_neg]
    intro hletter
    exact hother ⟨UInt32.le_iff_toNat_le.mpr hletter.1, UInt32.le_iff_toNat_le.mpr hletter.2⟩

/-- A digit by its code point. -/
theorem isDigit_iff_toNat (hbase : base ≤ 16) {value : Nat} :
    IsDigit base c value ↔ value < base ∧
      (c.toNat = 48 + value ∧ value < 10 ∨
        (c.toNat = 55 + value ∨ c.toNat = 87 + value) ∧ 10 ≤ value) := by
  refine and_congr_right fun hvalue => ?_
  rw [← Char.toNat_inj, toNat_toLower, toNat_digitChar (by omega)]
  split_ifs <;> omega

theorem IsDigit.unique (hbase : base ≤ 16) {value value' : Nat} (hdigit : IsDigit base c value)
    (hdigit' : IsDigit base c value') : value = value' := by
  rw [isDigit_iff_toNat hbase] at hdigit hdigit'
  omega

theorem IsDigit.isAlphanum (hbase : base ≤ 16) {value : Nat} (hdigit : IsDigit base c value) :
    c.isAlphanum := by
  rw [isDigit_iff_toNat hbase] at hdigit
  rw [isAlphanum_iff, isAlpha_iff]
  simp only [Char.le_def, UInt32.le_iff_toNat_le]
  change ((65 ≤ c.toNat ∧ c.toNat ≤ 90) ∨ 97 ≤ c.toNat ∧ c.toNat ≤ 122) ∨
    48 ≤ c.toNat ∧ c.toNat ≤ 57
  omega

theorem isDigit_digitChar (hbase : base ≤ 16) {value : Nat} (hvalue : value < base) :
    IsDigit base value.digitChar value := by
  rw [isDigit_iff_toNat hbase, toNat_digitChar (by omega)]
  split_ifs <;> omega

/-! ### Numerals -/

/-- A text is a numeral for one number. -/
theorem IsNumeral.unique (hbase : base ≤ 16) (hnumber : IsNumeral base text number)
    (hother : IsNumeral base text other) : number = other := by
  obtain ⟨digits, -, hdigits, rfl⟩ := hnumber
  obtain ⟨digits', -, hdigits', rfl⟩ := hother
  have hright : Relator.RightUnique (IsDigit base) :=
    fun _ _ _ hdigit hdigit' => hdigit.unique hbase hdigit'
  rw [List.right_unique_forall₂' hright hdigits hdigits']

theorem IsNumeral.ne_nil (hnumber : IsNumeral base text number) : text ≠ [] := by
  obtain ⟨digits, hnil, hdigits, -⟩ := hnumber
  intro hempty
  rw [hempty, List.forall₂_nil_left_iff] at hdigits
  exact hnil hdigits

theorem IsNumeral.exists_digit (hnumber : IsNumeral base text number) :
    ∀ c ∈ text, ∃ value, IsDigit base c value := by
  obtain ⟨digits, -, hdigits, -⟩ := hnumber
  induction hdigits with
  | nil => simp
  | cons hdigit _ ih => exact List.forall_mem_cons.mpr ⟨⟨_, hdigit⟩, ih⟩

theorem IsNumeral.isAlphanum (hbase : base ≤ 16) (hnumber : IsNumeral base text number) :
    ∀ c ∈ text, c.isAlphanum := by
  intro c hmem
  obtain ⟨value, hdigit⟩ := hnumber.exists_digit c hmem
  exact hdigit.isAlphanum hbase

/-- A character that is neither a letter nor a digit is not in a numeral. -/
theorem IsNumeral.notMem (hbase : base ≤ 16) (hnumber : IsNumeral base text number)
    (hc : c.isAlphanum = false) : c ∉ text := by
  intro hmem
  rw [hnumber.isAlphanum hbase c hmem] at hc
  contradiction

theorem isNumeral_singleton (hbase : base ≤ 16) (hnumber : number < base) :
    IsNumeral base [number.digitChar] number := by
  refine ⟨[number], by simp, ?_, ?_⟩
  · exact List.Forall₂.cons (isDigit_digitChar hbase hnumber) List.Forall₂.nil
  · rw [List.reverse_singleton, Nat.ofDigits_singleton]

/-- A digit behind a numeral moves the others up one place. -/
theorem IsNumeral.append_digit (hbase : base ≤ 16) (hnumber : IsNumeral base text number)
    {value : Nat} (hvalue : value < base) :
    IsNumeral base (text ++ [value.digitChar]) (base * number + value) := by
  obtain ⟨digits, hnil, hdigits, rfl⟩ := hnumber
  refine ⟨digits ++ [value], by simp, ?_, ?_⟩
  · exact List.rel_append hdigits
      (List.Forall₂.cons (isDigit_digitChar hbase hvalue) List.Forall₂.nil)
  · rw [List.reverse_append, List.reverse_singleton, List.singleton_append, Nat.ofDigits_cons]
    exact Nat.add_comm _ _

theorem isNumeral_toDigits (hbase : base ≤ 16) (htwo : 2 ≤ base) (number : Nat) :
    IsNumeral base (Nat.toDigits base number) number := by
  induction number using Nat.strongRecOn with
  | ind number ih =>
    rw [Nat.toDigits_eq_if (by omega)]
    split
    next hsmall => exact isNumeral_singleton hbase hsmall
    next hlarge =>
      have hfront := ih (number / base) (Nat.div_lt_self (by omega) (by omega))
      have hnumeral := hfront.append_digit hbase (Nat.mod_lt number (by omega))
      rwa [Nat.div_add_mod] at hnumeral

theorem notMem_toDigits (hc : c.isAlphanum = false) (n : Nat) : c ∉ Nat.toDigits 10 n :=
  (isNumeral_toDigits (by omega) (by omega) n).notMem (by omega) hc

theorem newline_notMem_toDigits (n : Nat) : '\n' ∉ Nat.toDigits 10 n :=
  notMem_toDigits rfl n

/-- Zeros in front of a numeral change nothing. -/
theorem IsNumeral.replicate_zero_append (hbase : base ≤ 16) (hpos : 0 < base)
    (hnumber : IsNumeral base text number) (count : Nat) :
    IsNumeral base (List.replicate count '0' ++ text) number := by
  induction count with
  | zero => exact hnumber
  | succ count ih =>
    obtain ⟨digits, hnil, hdigits, hvalue⟩ := ih
    refine ⟨0 :: digits, by simp, ?_, ?_⟩
    · exact List.Forall₂.cons (isDigit_digitChar hbase hpos) hdigits
    · rw [List.reverse_cons, Nat.ofDigits_append, Nat.ofDigits_singleton, Nat.mul_zero,
        Nat.add_zero]
      exact hvalue

theorem isNumeral_padded (hbase : base ≤ 16) (htwo : 2 ≤ base) (width number : Nat) :
    IsNumeral base (padded base width number) number :=
  (isNumeral_toDigits hbase htwo number).replicate_zero_append hbase (by omega) _

end CommandWord.Digits
