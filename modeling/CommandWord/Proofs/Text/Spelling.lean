import CommandWord.Command

/-!
Names by their characters. A name is spelled when it has a first character of one kind and goes on
with characters of another, so a character of neither kind cannot stand in it.
-/

namespace CommandWord

variable {starts continues : Char → Bool} {name : String} {c : Char}

theorem isAlpha_iff : c.isAlpha = true ↔ 'A' ≤ c ∧ c ≤ 'Z' ∨ 'a' ≤ c ∧ c ≤ 'z' := by
  show (decide (c.val ≥ 'A'.val ∧ c.val ≤ 'Z'.val) ||
    (decide (c.val ≥ 'a'.val) && decide (c.val ≤ 'z'.val))) = true ↔ _
  simp only [Bool.or_eq_true, Bool.and_eq_true, decide_eq_true_eq, ge_iff_le, Char.le_def]

theorem isAlphanum_iff : c.isAlphanum = true ↔ c.isAlpha = true ∨ '0' ≤ c ∧ c ≤ '9' := by
  show (c.isAlpha || (decide (c.val ≥ '0'.val) && decide (c.val ≤ '9'.val))) = true ↔ _
  simp only [Bool.or_eq_true, Bool.and_eq_true, decide_eq_true_eq, ge_iff_le, Char.le_def]

theorem isSpelled_iff :
    IsSpelled starts continues name ↔
      ∃ first rest, name.toList = first :: rest ∧ starts first ∧ ∀ c ∈ rest, continues c := by
  unfold IsSpelled
  split
  next hchars => simp [hchars]
  next first rest hchars =>
    rw [hchars, List.all_eq_true]
    constructor
    · intro hspelled
      exact ⟨first, rest, rfl, hspelled⟩
    · rintro ⟨first', rest', heq, hspelled⟩
      obtain ⟨rfl, rfl⟩ := List.cons.inj heq
      exact hspelled

theorem IsSpelled.mono {starts' continues' : Char → Bool} (hname : IsSpelled starts continues name)
    (hstarts : ∀ c, starts c → starts' c) (hcontinues : ∀ c, continues c → continues' c) :
    IsSpelled starts' continues' name := by
  obtain ⟨first, rest, hchars, hfirst, hrest⟩ := isSpelled_iff.mp hname
  refine isSpelled_iff.mpr ⟨first, rest, hchars, hstarts first hfirst, ?_⟩
  intro c hmem
  exact hcontinues c (hrest c hmem)

/-- A character that neither begins a name nor goes on with one is not in it. -/
theorem IsSpelled.notMem (hname : IsSpelled starts continues name) (hstart : starts c = false)
    (hcontinue : continues c = false) : c ∉ name.toList := by
  obtain ⟨first, rest, hchars, hfirst, hrest⟩ := isSpelled_iff.mp hname
  rw [hchars, List.mem_cons, not_or]
  constructor
  · intro heq
    rw [heq, hfirst] at hstart
    contradiction
  · intro hmem
    rw [hrest c hmem] at hcontinue
    contradiction

/-- An identifier consists of letters, digits and underscores. -/
theorem IsIdentifier.notMem (hname : IsIdentifier name) (hc : (c.isAlphanum || c == '_') = false) :
    c ∉ name.toList := by
  have hspelled : IsSpelled (fun c => c.isAlphanum || c == '_')
      (fun c => c.isAlphanum || c == '_') name := by
    apply IsSpelled.mono hname
    · intro c hstart
      rw [Bool.or_eq_true] at hstart ⊢
      exact hstart.imp_left fun hletter => isAlphanum_iff.mpr (Or.inl hletter)
    · intro c hcontinue
      exact hcontinue
  exact hspelled.notMem hc hc

end CommandWord
