import Mathlib.Data.List.Basic
import Mathlib.Data.List.Nodup

/-!
The order of two elements in a list, and what a stable sort makes of it: elements with different
keys stand in the order of their keys, and elements with one key in the order in which they stood.
-/

namespace CommandWord

variable {α : Type*} {list : List α}

theorem pair_sublist {i j : Nat} {earlier later : α} (hlt : i < j)
    (hearlier : list[i]? = some earlier) (hlater : list[j]? = some later) :
    [earlier, later].Sublist list := by
  have hpairs : list.Pairwise fun earlier later => [earlier, later].Sublist list :=
    List.pairwise_iff_forall_sublist.mpr id
  obtain ⟨hi, rfl⟩ := List.getElem?_eq_some_iff.mp hearlier
  obtain ⟨hj, rfl⟩ := List.getElem?_eq_some_iff.mp hlater
  exact List.pairwise_iff_getElem.mp hpairs i j hi hj hlt

/-- In a list without repetitions no two elements stand in either order. -/
theorem pair_sublist_antisymm [DecidableEq α] (hnodup : list.Nodup) {first second : α}
    (hforth : [first, second].Sublist list) (hback : [second, first].Sublist list) :
    first = second := by
  have hplaces : list.Pairwise fun earlier later => list.idxOf earlier ≤ list.idxOf later := by
    rw [List.pairwise_iff_getElem]
    intro i j hi hj hlt
    rw [hnodup.idxOf_getElem, hnodup.idxOf_getElem]
    exact Nat.le_of_lt hlt
  have hmem : first ∈ list := hforth.subset List.mem_cons_self
  apply (List.idxOf_inj hmem).mp
  apply Nat.le_antisymm
  · exact List.pairwise_iff_forall_sublist.mp hplaces hforth
  · exact List.pairwise_iff_forall_sublist.mp hplaces hback

/-- Two elements stand in one order or in the other. -/
theorem pair_sublist_total {first second : α} (hfirst : first ∈ list) (hsecond : second ∈ list)
    (hne : first ≠ second) : [first, second].Sublist list ∨ [second, first].Sublist list := by
  obtain ⟨i, hi⟩ := List.mem_iff_getElem?.mp hfirst
  obtain ⟨j, hj⟩ := List.mem_iff_getElem?.mp hsecond
  rcases Nat.lt_trichotomy i j with hlt | rfl | hlt
  · exact Or.inl (pair_sublist hlt hi hj)
  · exact absurd (Option.some.inj (hi.symm.trans hj)) hne
  · exact Or.inr (pair_sublist hlt hj hi)

/-- A stable sort by a key leaves elements with one key as they stand. -/
theorem pairwise_mergeSort_key [DecidableEq α] (key : α → Nat)
    {stands : α → α → Prop} (hnodup : list.Nodup) (hstands : list.Pairwise stands) :
    (list.mergeSort fun first second => key first ≤ key second).Pairwise fun first second =>
      key first < key second ∨ key first = key second ∧ stands first second := by
  have htrans : ∀ a b c, decide (key a ≤ key b) → decide (key b ≤ key c) →
      decide (key a ≤ key c) := by
    intro a b c hab hbc
    rw [decide_eq_true_eq] at hab hbc ⊢
    exact Nat.le_trans hab hbc
  have htotal : ∀ a b, (decide (key a ≤ key b) || decide (key b ≤ key a)) := by
    intro a b
    rw [Bool.or_eq_true, decide_eq_true_eq, decide_eq_true_eq]
    exact Nat.le_total _ _
  have hperm := List.mergeSort_perm list fun first second => key first ≤ key second
  rw [List.pairwise_iff_forall_sublist]
  intro first second hpair
  have hle : key first ≤ key second := of_decide_eq_true
    (List.pairwise_iff_forall_sublist.mp (List.pairwise_mergeSort htrans htotal list) hpair)
  by_cases htie : key first = key second
  · have hsorted := hperm.nodup_iff.mpr hnodup
    have hne : first ≠ second := List.pairwise_iff_forall_sublist.mp hsorted hpair
    have hfirst := hperm.mem_iff.mp (hpair.subset List.mem_cons_self)
    have hsecond := hperm.mem_iff.mp (hpair.subset (List.mem_cons_of_mem _ List.mem_cons_self))
    rcases pair_sublist_total hfirst hsecond hne with hforth | hback
    · exact Or.inr ⟨htie, List.pairwise_iff_forall_sublist.mp hstands hforth⟩
    · -- in the other order the sort would have left them in the other order
      have hreverse := List.pair_sublist_mergeSort htrans htotal
        (decide_eq_true (Nat.le_of_eq htie.symm)) hback
      exact absurd (pair_sublist_antisymm hsorted hpair hreverse) hne
  · exact Or.inl (Nat.lt_of_le_of_ne hle htie)

end CommandWord
