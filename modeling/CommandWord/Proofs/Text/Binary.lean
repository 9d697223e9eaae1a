import CommandWord.Text
import Mathlib.Algebra.Order.Ring.Nat
import Mathlib.Tactic.Ring

/-!
Binary digits, the most significant first. A text of binary digits is determined by its length and
by the number that it spells, and one such text ends another exactly when its number is what the
other's number leaves modulo a power of two.
-/

namespace CommandWord.Digits

/-- The text is made of the digits 0 and 1. -/
def IsBinary (text : List Char) : Prop :=
  ∀ digit ∈ text, digit = '0' ∨ digit = '1'

theorem isBinary_cons {digit : Char} {text : List Char} :
    IsBinary (digit :: text) ↔ (digit = '0' ∨ digit = '1') ∧ IsBinary text :=
  List.forall_mem_cons

theorem ofDigitChars_eq (text : List Char) (start : Nat) :
    Nat.ofDigitChars 2 text start = start * 2 ^ text.length + Nat.ofDigitChars 2 text 0 := by
  induction text generalizing start with
  | nil => simp
  | cons digit rest ih =>
    rw [Nat.ofDigitChars_cons, Nat.ofDigitChars_cons, ih, ih (2 * 0 + _), List.length_cons]
    ring

/-- The digits in front count by the power of two of those behind them. -/
theorem ofDigitChars_append (front text : List Char) :
    Nat.ofDigitChars 2 (front ++ text) 0 =
      Nat.ofDigitChars 2 front 0 * 2 ^ text.length + Nat.ofDigitChars 2 text 0 := by
  rw [Nat.ofDigitChars_append, ofDigitChars_eq]

theorem ofDigitChars_zero_cons (text : List Char) :
    Nat.ofDigitChars 2 ('0' :: text) 0 = Nat.ofDigitChars 2 text 0 := by
  rw [Nat.ofDigitChars_cons]
  rfl

theorem ofDigitChars_one_cons (text : List Char) :
    Nat.ofDigitChars 2 ('1' :: text) 0 = 2 ^ text.length + Nat.ofDigitChars 2 text 0 := by
  rw [Nat.ofDigitChars_cons, ofDigitChars_eq]
  simp

namespace IsBinary

variable {text other : List Char}

theorem ofDigitChars_lt (htext : IsBinary text) :
    Nat.ofDigitChars 2 text 0 < 2 ^ text.length := by
  induction text with
  | nil => simp
  | cons digit rest ih =>
    obtain ⟨hdigit, hrest⟩ := isBinary_cons.mp htext
    have hlt := ih hrest
    have hpow : 2 ^ (digit :: rest).length = 2 * 2 ^ rest.length := by
      rw [List.length_cons, Nat.pow_succ']
    rcases hdigit with rfl | rfl
    · rw [ofDigitChars_zero_cons]
      omega
    · rw [ofDigitChars_one_cons]
      omega

/-- Length and number determine the digits. -/
theorem eq_of_ofDigitChars_eq (htext : IsBinary text) (hother : IsBinary other)
    (hlength : text.length = other.length)
    (hvalue : Nat.ofDigitChars 2 text 0 = Nat.ofDigitChars 2 other 0) : text = other := by
  induction text generalizing other with
  | nil => exact (List.length_eq_zero_iff.mp hlength.symm).symm
  | cons digit rest ih =>
    cases other with
    | nil => simp at hlength
    | cons digit' rest' =>
      obtain ⟨hdigit, hrest⟩ := isBinary_cons.mp htext
      obtain ⟨hdigit', hrest'⟩ := isBinary_cons.mp hother
      have hlengths : rest.length = rest'.length := by simpa using hlength
      have hlt := hrest.ofDigitChars_lt
      have hlt' := hrest'.ofDigitChars_lt
      rw [hlengths] at hlt
      rcases hdigit with rfl | rfl
      · rcases hdigit' with rfl | rfl
        · rw [ofDigitChars_zero_cons, ofDigitChars_zero_cons] at hvalue
          rw [ih hrest hrest' hlengths hvalue]
        · rw [ofDigitChars_zero_cons, ofDigitChars_one_cons] at hvalue
          omega
      · rcases hdigit' with rfl | rfl
        · rw [ofDigitChars_one_cons, ofDigitChars_zero_cons, hlengths] at hvalue
          omega
        · rw [ofDigitChars_one_cons, ofDigitChars_one_cons, hlengths] at hvalue
          rw [ih hrest hrest' hlengths (Nat.add_left_cancel hvalue)]

/-- Digits end a text exactly when their number is the last part of its number. -/
theorem suffix_iff (htext : IsBinary text) (hother : IsBinary other)
    (hlength : text.length ≤ other.length) :
    text <:+ other ↔
      Nat.ofDigitChars 2 other 0 % 2 ^ text.length = Nat.ofDigitChars 2 text 0 := by
  constructor
  · intro hsuffix
    obtain ⟨front, rfl⟩ := hsuffix
    rw [ofDigitChars_append, Nat.mul_add_mod_self_right, Nat.mod_eq_of_lt htext.ofDigitChars_lt]
  · intro hvalue
    have hlast : (other.drop (other.length - text.length)).length = text.length := by
      rw [List.length_drop]
      omega
    have hbinary : IsBinary (other.drop (other.length - text.length)) :=
      fun digit hmem => hother digit (List.mem_of_mem_drop hmem)
    have hsplit := ofDigitChars_append (other.take (other.length - text.length))
      (other.drop (other.length - text.length))
    rw [List.take_append_drop, hlast] at hsplit
    have hsame : other.drop (other.length - text.length) = text := by
      apply hbinary.eq_of_ofDigitChars_eq htext hlast
      have hlt := hbinary.ofDigitChars_lt
      rw [hlast] at hlt
      rw [← hvalue, hsplit, Nat.mul_add_mod_self_right, Nat.mod_eq_of_lt hlt]
    rw [← hsame]
    exact List.drop_suffix _ _

/-- Below the number whose digits are all ones some digit is a zero. -/
theorem zero_mem (htext : IsBinary text)
    (hlt : Nat.ofDigitChars 2 text 0 + 1 < 2 ^ text.length) : '0' ∈ text := by
  induction text with
  | nil => simp at hlt
  | cons digit rest ih =>
    obtain ⟨hdigit, hrest⟩ := isBinary_cons.mp htext
    rcases hdigit with rfl | rfl
    · exact List.mem_cons_self
    · rw [ofDigitChars_one_cons, List.length_cons, Nat.pow_succ'] at hlt
      exact List.mem_cons_of_mem _ (ih hrest (by omega))

end IsBinary

theorem digitChar_of_lt_two {n : Nat} (hn : n < 2) : n.digitChar = '0' ∨ n.digitChar = '1' := by
  by_cases hzero : n = 0
  · subst hzero
    exact Or.inl rfl
  · obtain rfl : n = 1 := by omega
    exact Or.inr rfl

theorem isBinary_toDigits (n : Nat) : IsBinary (Nat.toDigits 2 n) := by
  induction n using Nat.strongRecOn with
  | ind n ih =>
    intro digit hmem
    rw [Nat.toDigits_eq_if (by omega)] at hmem
    by_cases hsmall : n < 2
    · rw [if_pos hsmall, List.mem_singleton] at hmem
      rw [hmem]
      exact digitChar_of_lt_two hsmall
    · rw [if_neg hsmall] at hmem
      rcases List.mem_append.mp hmem with hfront | hlast
      · exact ih (n / 2) (by omega) digit hfront
      · rw [List.mem_singleton.mp hlast]
        exact digitChar_of_lt_two (Nat.mod_lt n (by omega))

theorem isBinary_padded (width n : Nat) : IsBinary (padded 2 width n) := by
  intro digit hmem
  rcases List.mem_append.mp hmem with hzeros | hdigits
  · exact Or.inl (List.eq_of_mem_replicate hzeros)
  · exact isBinary_toDigits n digit hdigits

theorem ofDigitChars_padded (width n : Nat) :
    Nat.ofDigitChars 2 (padded 2 width n) 0 = n := by
  rw [padded, List.leftpad, ofDigitChars_append, Nat.ofDigitChars_replicate_zero, Nat.mul_zero,
    Nat.zero_mul, Nat.zero_add, Nat.ofDigitChars_toDigits (by omega) (by omega)]

/-- A number that the width has digits for is padded to exactly that width. -/
theorem length_padded {width n : Nat} (hwidth : 0 < width) (hn : n < 2 ^ width) :
    (padded 2 width n).length = width := by
  have hdigits := (Nat.length_toDigits_le_iff (by omega) hwidth).mpr hn
  rw [padded, List.length_leftpad]
  exact Nat.max_eq_left hdigits

end CommandWord.Digits
