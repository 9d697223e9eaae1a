import CommandWord.Random.Generator
import Mathlib.Algebra.Order.Ring.Nat

/-!
Draws stay in their range, whatever the keystream is: a draw is below the size of its words, so
the upper part of its product with a range is below the range, whether the draw was kept as a
fair one or was the last that was tried.
-/

namespace CommandWord

namespace Generator

theorem draw_lt (count : Nat) (generator : Generator) :
    (draw count generator).1 < 2 ^ (32 * count) := by
  induction count generalizing generator with
  | zero => simp [draw]
  | succ count ih =>
    have hlow : (Keystream.word generator.key generator.position).toNat < 2 ^ 32 :=
      (Keystream.word generator.key generator.position).toNat_lt
    have hhigh := ih ⟨generator.key, generator.position + 1⟩
    rw [Nat.mul_succ, Nat.pow_add, Nat.mul_comm (2 ^ (32 * count))]
    simp only [draw, UInt32.size]
    omega

theorem upper_lt {words range value : Nat} (hrange : 0 < range)
    (hvalue : value < 2 ^ (32 * words)) :
    (value * range) >>> (32 * words) < range := by
  rw [Nat.shiftRight_eq_div_pow]
  exact Nat.div_lt_of_lt_mul (Nat.mul_lt_mul_of_pos_right hvalue hrange)

theorem below_lt (words tries : Nat) {range : Nat} (hrange : 0 < range) (generator : Generator) :
    (below words range tries generator).1 < range := by
  induction tries generalizing generator with
  | zero => exact upper_lt hrange (draw_lt words generator)
  | succ tries ih =>
    simp only [below]
    split
    · exact upper_lt hrange (draw_lt words generator)
    · exact ih _

theorem between_mem (generator : Generator) (words : Nat) {low high : Nat} (hle : low ≤ high) :
    low ≤ (generator.between words low high).1 ∧ (generator.between words low high).1 ≤ high := by
  have hbelow : (below words (high - low + 1) 1024 generator).1 < high - low + 1 :=
    below_lt words 1024 (by omega) generator
  simp only [between]
  omega

theorem inRange : Randomness.InRange :=
  fun generator words _ _ hle => between_mem generator words hle

end Generator

end CommandWord
