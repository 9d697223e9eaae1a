import CommandWord.CommandLine.Number
import CommandWord.Proofs.Text.Numeral
import Mathlib.Tactic.Ring

/-!
What the command line takes for a mask. The text is a mark for the base, at most one plus sign and
then a numeral. Reading stops as soon as the number leaves 64 bits; later digits only make it
larger, so reading succeeds exactly when the whole number is below the limit. Every mask is read
back from its decimal and from its hexadecimal form.
-/

namespace CommandWord.Number

open Digits

variable {base sum number : Nat} {c : Char} {text rest : List Char}

/-- A numeral with at most one plus sign in front. -/
def IsUnsigned (base : Nat) (text : List Char) (number : Nat) : Prop :=
  ∃ sign digits, (sign = [] ∨ sign = ['+']) ∧ IsNumeral base digits number ∧
    text = sign ++ digits

/-- The marks for the bases in which a mask is written. -/
inductive Mark : List Char → Nat → Prop where
  | decimal : Mark [] 10
  | hexadecimal : Mark ['0', 'x'] 16
  | upperHexadecimal : Mark ['0', 'X'] 16

/-- How a mask is written: a mark for the base and then a number in that base. -/
def IsMaskText (text : List Char) (number : Nat) : Prop :=
  ∃ mark base rest, Mark mark base ∧ IsUnsigned base rest number ∧ text = mark ++ rest

/-- The number that the digits of the text make when those of `sum` stand in front of them. -/
def Continues (base sum : Nat) (text : List Char) (number : Nat) : Prop :=
  ∃ digits, List.Forall₂ (IsDigit base) text digits ∧
    number = sum * base ^ digits.length + Nat.ofDigits base digits.reverse

/-! ### Digits behind a number -/

theorem continues_nil : Continues base sum [] number ↔ number = sum := by
  constructor
  · intro hnumber
    obtain ⟨digits, hdigits, rfl⟩ := hnumber
    obtain rfl := List.forall₂_nil_left_iff.mp hdigits
    simp
  · intro hnumber
    exact ⟨[], List.Forall₂.nil, by simp [hnumber]⟩

theorem continues_cons (hbase : base ≤ 16) {value : Nat} (hdigit : IsDigit base c value) :
    Continues base sum (c :: rest) number ↔
      Continues base (sum * base + value) rest number := by
  have hmove : ∀ digits : List Nat,
      sum * base ^ (value :: digits).length + Nat.ofDigits base (value :: digits).reverse =
        (sum * base + value) * base ^ digits.length + Nat.ofDigits base digits.reverse := by
    intro digits
    rw [List.reverse_cons, Nat.ofDigits_append, Nat.ofDigits_singleton, List.length_reverse,
      List.length_cons]
    ring
  constructor
  · intro hnumber
    obtain ⟨digits, hdigits, rfl⟩ := hnumber
    obtain ⟨value', others, hdigit', hothers, rfl⟩ := List.forall₂_cons_left_iff.mp hdigits
    obtain rfl := hdigit.unique hbase hdigit'
    exact ⟨others, hothers, hmove others⟩
  · intro hnumber
    obtain ⟨others, hothers, rfl⟩ := hnumber
    exact ⟨value :: others, List.Forall₂.cons hdigit hothers, (hmove others).symm⟩

theorem Continues.exists_digit (hnumber : Continues base sum (c :: rest) number) :
    ∃ value, IsDigit base c value := by
  obtain ⟨digits, hdigits, -⟩ := hnumber
  obtain ⟨value, -, hdigit, -, -⟩ := List.forall₂_cons_left_iff.mp hdigits
  exact ⟨value, hdigit⟩

/-- More digits never make a number smaller. -/
theorem Continues.le (hpos : 0 < base) (hnumber : Continues base sum text number) :
    sum ≤ number := by
  obtain ⟨digits, -, rfl⟩ := hnumber
  exact Nat.le_add_right_of_le (Nat.le_mul_of_pos_right sum (Nat.pow_pos hpos))

theorem isNumeral_iff : IsNumeral base text number ↔ text ≠ [] ∧ Continues base 0 text number := by
  constructor
  · intro hnumeral
    obtain ⟨digits, hnil, hdigits, rfl⟩ := hnumeral
    refine ⟨?_, digits, hdigits, by simp⟩
    rintro rfl
    exact hnil (List.forall₂_nil_left_iff.mp hdigits)
  · intro hboth
    obtain ⟨hnil, digits, hdigits, rfl⟩ := hboth
    refine ⟨digits, ?_, hdigits, by simp⟩
    rintro rfl
    exact hnil (List.forall₂_nil_right_iff.mp hdigits)

/-! ### Reading -/

theorem digitValue?_eq_some_iff (hbase : base ≤ 16) {value : Nat} :
    digitValue? base c = some value ↔ IsDigit base c value := by
  rw [isDigit_iff_toNat hbase, digitValue?]
  simp only [Char.isDigit, Char.le_def, UInt32.le_iff_toNat_le, Option.filter_eq_some_iff,
    Bool.and_eq_true, decide_eq_true_eq]
  change (if 48 ≤ c.toNat ∧ c.toNat ≤ 57 then some (c.toNat - 48)
    else if 97 ≤ c.toNat ∧ c.toNat ≤ 102 then some (c.toNat - 97 + 10)
    else if 65 ≤ c.toNat ∧ c.toNat ≤ 70 then some (c.toNat - 65 + 10)
    else none) = some value ∧ value < base ↔ _
  split_ifs <;> simp <;> omega

/-- Reading goes on as long as the number stays below the limit, and so does the whole number
then. -/
theorem readDigits_eq_ok_iff (hbase : base ≤ 16) (hpos : 0 < base) (hsum : sum < 2 ^ 64) :
    readDigits base sum text = .ok number ↔ number < 2 ^ 64 ∧ Continues base sum text number := by
  induction text generalizing sum with
  | nil =>
    rw [readDigits, continues_nil, Except.ok.injEq]
    constructor
    · rintro rfl
      exact ⟨hsum, rfl⟩
    · intro hboth
      exact hboth.2.symm
  | cons c rest ih =>
    rw [readDigits]
    cases hvalue : digitValue? base c with
    | none =>
      refine ⟨nofun, ?_⟩
      intro hboth
      obtain ⟨value, hdigit⟩ := hboth.2.exists_digit
      rw [(digitValue?_eq_some_iff hbase).mpr hdigit] at hvalue
      contradiction
    | some value =>
      rw [continues_cons hbase ((digitValue?_eq_some_iff hbase).mp hvalue)]
      dsimp only
      split
      next hnext => exact ih hnext
      next hnext =>
        refine ⟨nofun, ?_⟩
        intro hboth
        exact absurd (Nat.lt_of_le_of_lt (hboth.2.le hpos) hboth.1) hnext

theorem readDigits_zero_eq_ok_iff (hbase : base ≤ 16) (hpos : 0 < base) (hnil : text ≠ []) :
    readDigits base 0 text = .ok number ↔ number < 2 ^ 64 ∧ IsNumeral base text number := by
  rw [readDigits_eq_ok_iff hbase hpos (Nat.two_pow_pos 64), isNumeral_iff]
  simp [hnil]

theorem isUnsigned_plus_iff (hbase : base ≤ 16) :
    IsUnsigned base ('+' :: rest) number ↔ IsNumeral base rest number := by
  constructor
  · intro hunsigned
    obtain ⟨sign, digits, rfl | rfl, hnumeral, htext⟩ := hunsigned
    · obtain rfl : '+' :: rest = digits := htext
      have hplus := hnumeral.isAlphanum hbase '+' List.mem_cons_self
      contradiction
    · rwa [List.tail_eq_of_cons_eq htext]
  · intro hnumeral
    exact ⟨['+'], rest, Or.inr rfl, hnumeral, rfl⟩

theorem isUnsigned_iff_of_ne (hplus : ∀ rest, text ≠ '+' :: rest) :
    IsUnsigned base text number ↔ IsNumeral base text number := by
  constructor
  · intro hunsigned
    obtain ⟨sign, digits, rfl | rfl, hnumeral, rfl⟩ := hunsigned
    · exact hnumeral
    · exact absurd rfl (hplus digits)
  · intro hnumeral
    exact ⟨[], text, Or.inl rfl, hnumeral, rfl⟩

theorem not_isNumeral_nil : ¬ IsNumeral base [] number :=
  fun hnumeral => (isNumeral_iff.mp hnumeral).1 rfl

theorem readUnsigned_eq_ok_iff (hbase : base ≤ 16) (hpos : 0 < base) :
    readUnsigned base text = .ok number ↔ number < 2 ^ 64 ∧ IsUnsigned base text number := by
  unfold readUnsigned
  split
  next =>
    rw [isUnsigned_iff_of_ne (by simp)]
    exact ⟨nofun, fun hboth => absurd hboth.2 not_isNumeral_nil⟩
  next =>
    rw [isUnsigned_plus_iff hbase]
    exact ⟨nofun, fun hboth => absurd hboth.2 not_isNumeral_nil⟩
  next digits hnil =>
    rw [isUnsigned_plus_iff hbase]
    exact readDigits_zero_eq_ok_iff hbase hpos (by simpa using hnil)
  next hnil _ hplus =>
    rw [isUnsigned_iff_of_ne (by simpa using hplus)]
    exact readDigits_zero_eq_ok_iff hbase hpos hnil

/-! ### Masks -/

theorem isMaskText_marked_iff {mark : Char} (hmark : mark = 'x' ∨ mark = 'X') :
    IsMaskText ('0' :: mark :: rest) number ↔ IsUnsigned 16 rest number := by
  constructor
  · intro hmask
    obtain ⟨front, base, others, hfront, hunsigned, htext⟩ := hmask
    cases hfront with
    | decimal =>
      -- the mark is no decimal digit, so the text is no decimal number
      obtain rfl : '0' :: mark :: rest = others := htext
      rw [isUnsigned_iff_of_ne (by simp)] at hunsigned
      obtain ⟨value, hdigit⟩ := hunsigned.exists_digit mark (by simp)
      rw [isDigit_iff_toNat (by omega)] at hdigit
      have hcode : mark.toNat = 120 ∨ mark.toNat = 88 := by
        rcases hmark with rfl | rfl
        · exact Or.inl rfl
        · exact Or.inr rfl
      omega
    | hexadecimal =>
      obtain ⟨-, rfl⟩ : mark = 'x' ∧ rest = others := by simpa using htext
      exact hunsigned
    | upperHexadecimal =>
      obtain ⟨-, rfl⟩ : mark = 'X' ∧ rest = others := by simpa using htext
      exact hunsigned
  · intro hunsigned
    rcases hmark with rfl | rfl
    · exact ⟨_, 16, rest, .hexadecimal, hunsigned, rfl⟩
    · exact ⟨_, 16, rest, .upperHexadecimal, hunsigned, rfl⟩

theorem isMaskText_iff_of_ne (hlower : ∀ rest, text ≠ '0' :: 'x' :: rest)
    (hupper : ∀ rest, text ≠ '0' :: 'X' :: rest) :
    IsMaskText text number ↔ IsUnsigned 10 text number := by
  constructor
  · intro hmask
    obtain ⟨mark, base, rest, hmark, hunsigned, rfl⟩ := hmask
    cases hmark with
    | decimal => exact hunsigned
    | hexadecimal => exact absurd rfl (hlower rest)
    | upperHexadecimal => exact absurd rfl (hupper rest)
  · intro hunsigned
    exact ⟨[], 10, text, .decimal, hunsigned, rfl⟩

/-- A number that stays below the limit keeps its value as a word. -/
theorem map_ofNat_eq_ok_iff {read : Except NumberError Nat} {mask : UInt64}
    (hread : ∀ number, read = .ok number → number < 2 ^ 64) :
    read.map UInt64.ofNat = .ok mask ↔ read = .ok mask.toNat := by
  cases read with
  | error cause => exact ⟨nofun, nofun⟩
  | ok number =>
    have hlimit := hread number rfl
    rw [Except.map, Except.ok.injEq, Except.ok.injEq, ← UInt64.toNat_inj, UInt64.toNat_ofNat',
      Nat.mod_eq_of_lt hlimit]

theorem map_readUnsigned_eq_ok_iff {mask : UInt64} (hbase : base ≤ 16) (hpos : 0 < base) :
    (readUnsigned base text).map UInt64.ofNat = .ok mask ↔ IsUnsigned base text mask.toNat := by
  have hlimit : ∀ number, readUnsigned base text = .ok number → number < 2 ^ 64 := by
    intro number hread
    exact ((readUnsigned_eq_ok_iff hbase hpos).mp hread).1
  rw [map_ofNat_eq_ok_iff hlimit, readUnsigned_eq_ok_iff hbase hpos]
  exact and_iff_right mask.toNat_lt

theorem mask?_eq_ok_iff {word : String} {mask : UInt64} :
    mask? word = .ok mask ↔ IsMaskText word.toList mask.toNat := by
  unfold mask?
  split
  next rest htext =>
    rw [htext, isMaskText_marked_iff (Or.inl rfl)]
    exact map_readUnsigned_eq_ok_iff (by omega) (by omega)
  next rest htext =>
    rw [htext, isMaskText_marked_iff (Or.inr rfl)]
    exact map_readUnsigned_eq_ok_iff (by omega) (by omega)
  next hlower hupper =>
    rw [isMaskText_iff_of_ne hlower hupper]
    exact map_readUnsigned_eq_ok_iff (by omega) (by omega)

/-- A text is read exactly when it is a mark for a base, at most one plus sign and a numeral whose
number is below the limit, and it is read as that number. So every mask is read back from the
decimal and from the hexadecimal form in which it is printed. -/
theorem mask_read_as_spelled :
    (∀ text number, (∃ mask, mask? text = .ok mask ∧ mask.toNat = number) ↔
      number < 2 ^ 64 ∧ IsMaskText text.toList number) ∧
    ∀ mask : UInt64, mask? (toString mask) = .ok mask ∧ mask? (hex mask.toNat) = .ok mask := by
  refine ⟨?_, ?_⟩
  · intro text number
    constructor
    · intro hread
      obtain ⟨mask, hmask, rfl⟩ := hread
      exact ⟨mask.toNat_lt, mask?_eq_ok_iff.mp hmask⟩
    · intro hboth
      obtain ⟨hlimit, htext⟩ := hboth
      have hvalue : (UInt64.ofNat number).toNat = number := by
        rw [UInt64.toNat_ofNat', Nat.mod_eq_of_lt hlimit]
      refine ⟨UInt64.ofNat number, mask?_eq_ok_iff.mpr ?_, hvalue⟩
      rwa [hvalue]
  · intro mask
    constructor
    · rw [mask?_eq_ok_iff]
      have hnumeral := isNumeral_toDigits (by omega : 10 ≤ 16) (by omega) mask.toNat
      refine ⟨[], 10, _, .decimal, ⟨[], _, Or.inl rfl, hnumeral, rfl⟩, ?_⟩
      change (toString mask.toNat).toList = _
      rw [Nat.toString_eq_ofList_toDigits, String.toList_ofList]
      rfl
    · rw [mask?_eq_ok_iff]
      have hnumeral := isNumeral_toDigits (Nat.le_refl 16) (by omega) mask.toNat
      refine ⟨['0', 'x'], 16, _, .hexadecimal, ⟨[], _, Or.inl rfl, hnumeral, rfl⟩, ?_⟩
      simp only [hex, String.toList_append, String.toList_ofList]
      rfl

-- the plus sign stands behind the mark, not in front of it
example : mask? "0x+5" = .ok 5 ∧ mask? "+0x5" = .error .invalidDigit := ⟨rfl, rfl⟩

end CommandWord.Number
