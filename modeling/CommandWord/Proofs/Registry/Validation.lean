import CommandWord.Registry
import Mathlib.Data.List.Nodup

/-!
Validation refuses nothing that it should accept: a registry is made from a word width and a
list of commands exactly when they are valid together, and it keeps both unchanged. Variants
come from names alone, so commands of one registry differ in their names too.
-/

namespace CommandWord

theorem ValidRegistry.nodup_names {totalBits : Nat} {commands : List Command}
    (hvalid : ValidRegistry totalBits commands) : (commands.map Command.name).Nodup := by
  have hvariants := hvalid.nodup
  rw [show Command.variant = (fun name : String =>
      String.ofList ((nameParts name.toList).flatMap capitalize)) ∘ Command.name from rfl,
    ← List.map_map] at hvariants
  exact hvariants.of_map _

namespace Registry

/-- Commands that stand only add their variants to those that have been seen. -/
theorem nameFault_append {seen : List String} {before : List Command} (rest : List Command)
    (husable : ∀ command ∈ before, command.HasUsableName ∧ command.variant ∉ seen)
    (hnodup : (before.map Command.variant).Nodup) :
    nameFault seen (before ++ rest) =
      nameFault ((before.map Command.variant).reverse ++ seen) rest := by
  induction before generalizing seen with
  | nil => rfl
  | cons command before ih =>
    obtain ⟨⟨hname, hfresh⟩, hbefore⟩ := List.forall_mem_cons.mp husable
    rw [List.map_cons, List.nodup_cons] at hnodup
    rw [List.cons_append, nameFault, if_neg (not_not.mpr hname), if_neg hfresh, ih _ hnodup.2]
    · simp
    · intro other hother
      refine ⟨(hbefore other hother).1, ?_⟩
      rw [List.mem_cons, not_or]
      refine ⟨?_, (hbefore other hother).2⟩
      intro heq
      exact hnodup.1 (heq ▸ List.mem_map_of_mem hother)

theorem nameFault_eq_none_of_usable {seen : List String} {commands : List Command}
    (husable : ∀ command ∈ commands, command.HasUsableName ∧ command.variant ∉ seen)
    (hnodup : (commands.map Command.variant).Nodup) : nameFault seen commands = none := by
  have hscan := nameFault_append [] husable hnodup
  rwa [List.append_nil, nameFault] at hscan

theorem fault_eq_none_iff {totalBits : Nat} {commands : List Command} :
    fault totalBits commands = none ↔ ValidRegistry totalBits commands := by
  constructor
  · exact valid_of_fault_eq_none
  · intro hvalid
    have hbits : ¬ (totalBits = 0 ∨ 64 < totalBits) := by
      have hone := hvalid.one_le
      have hword := hvalid.le_word
      omega
    rw [fault, if_neg hbits, if_neg hvalid.ne_nil]
    refine nameFault_eq_none_of_usable ?_ hvalid.nodup
    exact fun command hmem => ⟨hvalid.usable command hmem, List.not_mem_nil⟩

instance (totalBits : Nat) (commands : List Command) :
    Decidable (ValidRegistry totalBits commands) :=
  decidable_of_iff _ fault_eq_none_iff

theorem ofCommands_of_valid {totalBits : Nat} {commands : List Command}
    (hvalid : ValidRegistry totalBits commands) :
    ofCommands totalBits commands = .ok ⟨totalBits, commands, hvalid⟩ := by
  unfold ofCommands
  split
  next cause hfault =>
    rw [fault_eq_none_iff.mpr hvalid] at hfault
    contradiction
  next => rfl

theorem ofCommands_of_not_valid {totalBits : Nat} {commands : List Command}
    (hvalid : ¬ ValidRegistry totalBits commands) :
    ∃ cause, fault totalBits commands = some cause ∧
      ofCommands totalBits commands = .error cause := by
  unfold ofCommands
  split
  next cause hfault => exact ⟨cause, hfault, rfl⟩
  next hnone => exact absurd (fault_eq_none_iff.mp hnone) hvalid

theorem ofCommands_of_fault {totalBits : Nat} {commands : List Command}
    {cause : ConfigurationError} (hfault : fault totalBits commands = some cause) :
    ofCommands totalBits commands = .error cause := by
  have hvalid : ¬ ValidRegistry totalBits commands := by
    rw [← fault_eq_none_iff, hfault]
    nofun
  obtain ⟨other, hother, herror⟩ := ofCommands_of_not_valid hvalid
  rw [herror, Option.some.inj (hother.symm.trans hfault)]

theorem ofCommands_eq_error_iff {totalBits : Nat} {commands : List Command}
    {cause : ConfigurationError} :
    ofCommands totalBits commands = .error cause ↔ fault totalBits commands = some cause := by
  refine ⟨?_, ofCommands_of_fault⟩
  intro herror
  by_cases hvalid : ValidRegistry totalBits commands
  · rw [ofCommands_of_valid hvalid] at herror
    contradiction
  · obtain ⟨other, hfault, hother⟩ := ofCommands_of_not_valid hvalid
    rw [hfault, Except.error.inj (hother.symm.trans herror)]

theorem exists_ofCommands_iff {totalBits : Nat} {commands : List Command} :
    (∃ registry, ofCommands totalBits commands = .ok registry) ↔
      ValidRegistry totalBits commands := by
  constructor
  · intro hok
    obtain ⟨registry, hregistry⟩ := hok
    by_contra hvalid
    obtain ⟨cause, -, herror⟩ := ofCommands_of_not_valid hvalid
    rw [hregistry] at herror
    contradiction
  · intro hvalid
    exact ⟨_, ofCommands_of_valid hvalid⟩

end Registry

end CommandWord
