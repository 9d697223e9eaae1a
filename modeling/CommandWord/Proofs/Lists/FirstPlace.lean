import Mathlib.Data.List.Basic

/-!
The first place of a list where something holds, and the first of several checks that is not
passed. A search from the front finds exactly these.
-/

namespace CommandWord

variable {α : Type*} {wanted : α → Prop} {list rest : List α} {i : Nat} {element first : α}

/-- The element at place `i` is wanted, and none before it is. -/
structure FirstPlace (wanted : α → Prop) (list : List α) (i : Nat) (element : α) : Prop where
  at_place : list[i]? = some element
  holds : wanted element
  earlier : ∀ j < i, ∀ other, list[j]? = some other → ¬ wanted other

namespace FirstPlace

theorem head (hfirst : wanted first) : FirstPlace wanted (first :: rest) 0 first :=
  ⟨rfl, hfirst, fun _ hj => absurd hj (Nat.not_lt_zero _)⟩

theorem tail (hfirst : ¬ wanted first) (hrest : FirstPlace wanted rest i element) :
    FirstPlace wanted (first :: rest) (i + 1) element := by
  refine ⟨hrest.at_place, hrest.holds, ?_⟩
  intro j hj other hother
  cases j with
  | zero => exact Option.some.inj hother ▸ hfirst
  | succ j => exact hrest.earlier j (by omega) other hother

end FirstPlace

/-- A search from the front finds the first place. -/
theorem exists_firstPlace_of_find? [DecidablePred wanted]
    (hfound : (list.find? fun other => wanted other) = some element) :
    ∃ i, FirstPlace wanted list i element := by
  obtain ⟨hholds, i, hi, hplace, hearlier⟩ := List.find?_eq_some_iff_getElem.mp hfound
  refine ⟨i, ?_, of_decide_eq_true hholds, ?_⟩
  · rw [List.getElem?_eq_getElem hi, hplace]
  · intro j hj other hother
    obtain ⟨_, rfl⟩ := List.getElem?_eq_some_iff.mp hother
    simpa using hearlier j hj

variable {passes : α → Prop} {order : List α}

/-- The check is the first in the order that is not passed. -/
structure FirstFailure [DecidableEq α] (passes : α → Prop) (order : List α) (check : α) :
    Prop where
  fails : ¬ passes check
  earlier : ∀ other ∈ order.takeWhile (· ≠ check), passes other

/-- All checks are passed, or one of them is the first that is not. -/
theorem passes_or_firstFailure [DecidableEq α] (passes : α → Prop) (order : List α) :
    (∀ check ∈ order, passes check) ∨ ∃ check, FirstFailure passes order check := by
  induction order with
  | nil => exact Or.inl nofun
  | cons head tail ih =>
    by_cases hhead : passes head
    · rcases ih with hall | ⟨check, hfails, hearlier⟩
      · exact Or.inl (List.forall_mem_cons.mpr ⟨hhead, hall⟩)
      · refine Or.inr ⟨check, hfails, ?_⟩
        intro other hother
        rw [List.takeWhile_cons] at hother
        split at hother
        · rcases List.mem_cons.mp hother with rfl | htail
          · exact hhead
          · exact hearlier other htail
        · contradiction
    · refine Or.inr ⟨head, hhead, ?_⟩
      simp

end CommandWord
