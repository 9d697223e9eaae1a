import CommandWord.Proofs.Codec.Compilation
import CommandWord.Proofs.Codec.Rows
import Mathlib.Algebra.Order.Field.Rat
import Mathlib.Tactic.FieldSimp
import Mathlib.Tactic.Linarith
import Mathlib.Tactic.Positivity

/-!
How much of the code space the headers claim. A header of length `n` claims one value in `2 ^ n`.
No more than `2 ^ s` commands share a codec whose shortest header has length `s`, and not all of
those have a header as short as that, so something is always left: half of what one shortest
header claims, and all of it in the uniform layout.
-/

namespace CommandWord

/-- The share of all values that headers of these lengths claim. -/
def claimedShare (lengths : List Nat) : ℚ :=
  (lengths.map fun length => (1 : ℚ) / 2 ^ length).sum

/-- The share of all values that the headers claim, without rounding. -/
def Report.exactCodeSpace (report : Report) : ℚ :=
  claimedShare (report.rows.map ReportRow.headerLength)

variable {lengths : List Nat} {shortest : Nat}

theorem claimedShare_cons (length : Nat) (rest : List Nat) :
    claimedShare (length :: rest) = 1 / 2 ^ length + claimedShare rest := by
  rw [claimedShare, List.map_cons, List.sum_cons, claimedShare]

/-- Counted in shares of one bit more than the shortest length, a header of that length claims two
and every other at most one. -/
theorem share_mul_le {length : Nat} (hle : shortest ≤ length) :
    (1 : ℚ) / 2 ^ length * 2 ^ (shortest + 1) ≤ 1 + if length = shortest then 1 else 0 := by
  by_cases heq : length = shortest
  · rw [if_pos heq, heq, pow_succ]
    field_simp
    norm_num
  · have hlonger : shortest + 1 ≤ length := by omega
    rw [if_neg heq, add_zero, one_div, inv_mul_le_iff₀ (by positivity), mul_one]
    exact pow_le_pow_right₀ (by norm_num) hlonger

theorem claimedShare_mul_le (hshortest : ∀ length ∈ lengths, shortest ≤ length) :
    claimedShare lengths * 2 ^ (shortest + 1) ≤
      ((lengths.length + lengths.countP fun length => length = shortest : Nat) : ℚ) := by
  induction lengths with
  | nil => simp [claimedShare]
  | cons length rest ih =>
    obtain ⟨hfirst, hrest⟩ := List.forall_mem_cons.mp hshortest
    have hshare := share_mul_le hfirst
    have hothers := ih hrest
    rw [claimedShare_cons, add_mul, List.length_cons, List.countP_cons]
    push_cast at hothers ⊢
    simp only [decide_eq_true_eq]
    linarith

/-- Numbers of one bit more than the shortest length that the counts leave over are left of the
code space. -/
theorem claimedShare_le_of_spare {spare : Nat}
    (hshortest : ∀ length ∈ lengths, shortest ≤ length)
    (hcount : lengths.length + (lengths.countP fun length => length = shortest) + spare ≤
      2 ^ (shortest + 1)) :
    claimedShare lengths ≤ 1 - (spare : ℚ) / 2 ^ (shortest + 1) := by
  have hpow : (0 : ℚ) < 2 ^ (shortest + 1) := by positivity
  have hclaimed := claimedShare_mul_le hshortest
  have hspare : ((lengths.length + lengths.countP fun length => length = shortest : Nat) : ℚ) ≤
      2 ^ (shortest + 1) - spare := by
    rw [le_sub_iff_add_le]
    exact_mod_cast hcount
  have hone : (1 : ℚ) - spare / 2 ^ (shortest + 1) =
      (2 ^ (shortest + 1) - spare) / 2 ^ (shortest + 1) := by
    rw [sub_div, div_self (ne_of_gt hpow)]
  rw [hone, le_div_iff₀ hpow]
  exact hclaimed.trans hspare

theorem claimedShare_le_of_room (hshortest : ∀ length ∈ lengths, shortest ≤ length)
    (hroom : lengths.length ≤ 2 ^ shortest)
    (hcount : (lengths.countP fun length => length = shortest) < 2 ^ shortest) :
    claimedShare lengths ≤ 1 - 1 / 2 ^ (shortest + 1) := by
  have hdouble : 2 ^ (shortest + 1) = 2 * 2 ^ shortest := Nat.pow_succ'
  have hspare : lengths.length + (lengths.countP fun length => length = shortest) + 1 ≤
      2 ^ (shortest + 1) := by omega
  simpa using claimedShare_le_of_spare hshortest hspare

/-- Where no header is longer than the shortest, a whole one of them is left over. -/
theorem claimedShare_le_of_forall_eq (hequal : ∀ length ∈ lengths, length = shortest)
    (hcount : (lengths.countP fun length => length = shortest) < 2 ^ shortest) :
    claimedShare lengths ≤ 1 - 1 / 2 ^ shortest := by
  have hdouble : 2 ^ (shortest + 1) = 2 * 2 ^ shortest := Nat.pow_succ'
  have hall : (lengths.countP fun length => length = shortest) = lengths.length :=
    List.countP_eq_length.mpr fun length hmem => decide_eq_true (hequal length hmem)
  have hspare : lengths.length + (lengths.countP fun length => length = shortest) + 2 ≤
      2 ^ (shortest + 1) := by omega
  have hshortest : ∀ length ∈ lengths, shortest ≤ length :=
    fun length hmem => Nat.le_of_eq (hequal length hmem).symm
  have hhalf : ((2 : Nat) : ℚ) / 2 ^ (shortest + 1) = 1 / 2 ^ shortest := by
    rw [pow_succ]
    field_simp
    norm_num
  rw [← hhalf]
  exact claimedShare_le_of_spare hshortest hspare

namespace Codec

/-- The codes suffice for all headers, with one to spare for those of the shortest length. -/
theorem counts_le (codec : Codec) :
    (codec.registry.lengths codec.layout).length ≤
        2 ^ shortestLength (codec.registry.lengths codec.layout) ∧
      ((codec.registry.lengths codec.layout).countP fun length =>
        length = shortestLength (codec.registry.lengths codec.layout)) <
          2 ^ shortestLength (codec.registry.lengths codec.layout) := by
  have hlength := codec.registry.length_lengths codec.layout
  have hfree : codec.registry.blockedRow? (codec.registry.lengths codec.layout) = none :=
    (codec.registry.blockedRow?_lengths_eq_none_iff codec.layout (.fixed codec.mask)).mpr
      (codec.passes .codeSpace)
  rw [hlength]
  exact (codec.registry.blockedRow?_eq_none_iff hlength).mp hfree

theorem lengths_ne_nil (codec : Codec) : codec.registry.lengths codec.layout ≠ [] := by
  rw [Registry.lengths, ne_eq, List.map_eq_nil_iff]
  exact codec.registry.valid.ne_nil

theorem length_eq_of_uniform {codec : Codec} (huniform : codec.layout = .uniform) {length : Nat}
    (hmem : length ∈ codec.registry.lengths codec.layout) :
    length = shortestLength (codec.registry.lengths codec.layout) := by
  rw [codec.registry.shortestLength_lengths]
  rw [huniform] at hmem
  obtain ⟨command, -, rfl⟩ := List.mem_map.mp hmem
  rfl

/-- The headers leave at least half the share of one of the shortest length, and in the uniform
layout all of it, so they never claim the whole code space. -/
theorem code_space_below_one (codec : Codec) :
    ∃ shortest,
      (∃ row ∈ (Report.ofCodec codec).rows, row.headerLength = shortest) ∧
      (∀ row ∈ (Report.ofCodec codec).rows, shortest ≤ row.headerLength) ∧
      (Report.ofCodec codec).exactCodeSpace ≤ 1 - 1 / 2 ^ (shortest + 1) ∧
      (Report.ofCodec codec).exactCodeSpace < 1 ∧
      (codec.layout = .uniform →
        (Report.ofCodec codec).exactCodeSpace ≤ 1 - 1 / 2 ^ shortest) := by
  have hlengths := codec.map_headerLength_rows
  obtain ⟨hroom, hcount⟩ := codec.counts_le
  have hclaimed : (Report.ofCodec codec).exactCodeSpace ≤
      1 - 1 / 2 ^ (shortestLength (codec.registry.lengths codec.layout) + 1) := by
    rw [Report.exactCodeSpace, hlengths]
    exact claimedShare_le_of_room (fun _ => shortestLength_le) hroom hcount
  have hleft : (0 : ℚ) <
      1 / 2 ^ (shortestLength (codec.registry.lengths codec.layout) + 1) := by positivity
  refine ⟨shortestLength (codec.registry.lengths codec.layout), ?_, ?_, hclaimed, by linarith, ?_⟩
  · have hmem := shortestLength_mem codec.lengths_ne_nil
    rw [← hlengths] at hmem ⊢
    exact List.mem_map.mp hmem
  · intro row hrow
    rw [← hlengths]
    exact shortestLength_le (List.mem_map_of_mem hrow)
  · intro huniform
    rw [Report.exactCodeSpace, hlengths]
    exact claimedShare_le_of_forall_eq (fun _ => length_eq_of_uniform huniform) hcount

/-- Three of the four codes of two bits: the bound of the uniform layout is reached. -/
theorem code_space_below_one_in_full_table :
    ∃ codec,
      build 3 [⟨"A", [1]⟩, ⟨"B", []⟩, ⟨"C", [0, 1]⟩] .uniform (.fixed 5) = .ok codec ∧
        codec.layout = .uniform ∧ (Report.ofCodec codec).exactCodeSpace ≤ 1 - 1 / 2 ^ 2 ∧
        (Report.ofCodec codec).exactCodeSpace = 3 / 4 := by
  obtain ⟨codec, hbuild⟩ : ∃ codec,
      build 3 [⟨"A", [1]⟩, ⟨"B", []⟩, ⟨"C", [0, 1]⟩] .uniform (.fixed 5) = .ok codec :=
    exists_build (by rintro (_ | _ | _ | _) <;> decide)
  obtain ⟨htotal, hcommands, hlayout, -⟩ := inputs_of_build hbuild
  have hlengths : (Report.ofCodec codec).rows.map ReportRow.headerLength = [2, 2, 2] := by
    rw [map_headerLength_rows, Registry.lengths, htotal, hcommands, hlayout]
    rfl
  obtain ⟨shortest, hmem, -, -, -, huniform⟩ := code_space_below_one codec
  obtain rfl : shortest = 2 := by
    have htwo := List.mem_map.mpr hmem
    rw [hlengths] at htwo
    simpa using htwo
  refine ⟨codec, hbuild, hlayout, huniform hlayout, ?_⟩
  rw [Report.exactCodeSpace, hlengths]
  norm_num [claimedShare]

end Codec

end CommandWord
