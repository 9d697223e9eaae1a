import CommandWord.Proofs.Command.Canonical
import CommandWord.Proofs.Registry.Naming

/-!
Which names a registry takes for the same. Validation compares variants, and names have one variant
exactly when they have one canonical name. A command is therefore reported as a duplicate exactly
when nothing before it is wrong and an earlier command has its canonical name.
-/

namespace CommandWord

namespace Command

/-- The name as far as it tells commands apart. -/
def canonical (command : Command) : String := canonicalName command.name

variable {command : Command} {commands : List Command}

theorem variant_mem_map_iff :
    command.variant ∈ commands.map variant ↔ command.canonical ∈ commands.map canonical := by
  simp only [List.mem_map, canonical, variant_eq_iff]

theorem nodup_variants_iff :
    (commands.map variant).Nodup ↔ (commands.map canonical).Nodup := by
  simp only [List.Nodup, List.pairwise_map, canonical, ne_eq, variant_eq_iff]

end Command

/-- Behind these commands, in which nothing is wrong, the command is the first whose canonical name
an earlier one has. -/
structure FirstRepetition (before : List Command) (command : Command) : Prop where
  usable : ∀ other ∈ before, other.HasUsableName
  distinct : (before.map Command.canonical).Nodup
  usable_here : command.HasUsableName
  repeated : command.canonical ∈ before.map Command.canonical

namespace Registry

variable {totalBits : Nat} {commands : List Command}

/-- Nothing in front of a reported duplicate is wrong, and the report is on the name of a command
that repeats a variant. -/
theorem exists_repeated_of_nameFault {name : String}
    (hfault : nameFault [] commands = some (.duplicateCommand name)) :
    ∃ before command after, commands = before ++ command :: after ∧ command.name = name ∧
      command.HasUsableName ∧ (∀ other ∈ before, other.HasUsableName) ∧
      (before.map Command.variant).Nodup ∧ command.variant ∈ before.map Command.variant := by
  have hoffence : ∃ i command, OffendsAt commands i command := by
    by_contra hnone
    obtain ⟨husable, hnodup⟩ := clean_take (i := commands.length)
      fun j _ other hother => hnone ⟨j, other, hother⟩
    rw [List.take_length] at husable hnodup
    rw [nameFault_eq_none_of_usable (fun other hmem => ⟨husable other hmem, List.not_mem_nil⟩)
      hnodup] at hfault
    contradiction
  obtain ⟨i, command, hfirst⟩ := exists_firstOffence hoffence
  obtain ⟨husable, hnodup⟩ := clean_take hfirst.earlier
  rcases nameFault_of_firstOffence hfirst with ⟨-, hreport⟩ | ⟨hname, hreport⟩
  · have hcause := Option.some.inj (hreport.symm.trans hfault)
    contradiction
  · have hsame := ConfigurationError.duplicateCommand.inj
      (Option.some.inj (hreport.symm.trans hfault))
    exact ⟨commands.take i, command, commands.drop (i + 1), hfirst.here.take_append.symm, hsame,
      hname, husable, hnodup, hfirst.here.repeats hname⟩

theorem nameFault_eq_duplicate_iff {name : String} :
    nameFault [] commands = some (.duplicateCommand name) ↔
      ∃ before command after, commands = before ++ command :: after ∧
        FirstRepetition before command ∧ command.name = name := by
  constructor
  · intro hfault
    obtain ⟨before, command, after, hsplit, hsame, hname, husable, hnodup, hrepeated⟩ :=
      exists_repeated_of_nameFault hfault
    exact ⟨before, command, after, hsplit, ⟨husable, Command.nodup_variants_iff.mp hnodup, hname,
      Command.variant_mem_map_iff.mp hrepeated⟩, hsame⟩
  · intro hrepetition
    obtain ⟨before, command, after, hsplit, hfirst, hsame⟩ := hrepetition
    rw [hsplit, ← hsame]
    exact nameFault_of_repeated hfirst.usable (Command.nodup_variants_iff.mpr hfirst.distinct)
      hfirst.usable_here (Command.variant_mem_map_iff.mpr hfirst.repeated)

/-- A duplicate is reported only beside a word of a usable width. -/
theorem ofCommands_eq_duplicate_iff {name : String} :
    ofCommands totalBits commands = .error (.duplicateCommand name) ↔
      (1 ≤ totalBits ∧ totalBits ≤ 64) ∧
        nameFault [] commands = some (.duplicateCommand name) := by
  rw [ofCommands_eq_error_iff, fault]
  by_cases hbits : totalBits = 0 ∨ 64 < totalBits
  · have hwidth : ¬ (1 ≤ totalBits ∧ totalBits ≤ 64) := by omega
    simp [hbits, hwidth]
  · have hwidth : 1 ≤ totalBits ∧ totalBits ≤ 64 := by omega
    rw [if_neg hbits, and_iff_right hwidth]
    by_cases hnil : commands = []
    · simp [hnil, nameFault]
    · rw [if_neg hnil]

/-- Names have one variant exactly when they have one canonical name. So a registry reports a
duplicate exactly at the first command whose canonical name an earlier one has, and accepts usable
names exactly when their canonical names differ. -/
theorem duplicates_are_canonical_repetitions (totalBits : Nat) (commands : List Command) :
    (∀ first second : Command,
      first.variant = second.variant ↔ canonicalName first.name = canonicalName second.name) ∧
    (∀ name, ofCommands totalBits commands = .error (.duplicateCommand name) ↔
      (1 ≤ totalBits ∧ totalBits ≤ 64) ∧
        ∃ before command after, commands = before ++ command :: after ∧
          FirstRepetition before command ∧ command.name = name) ∧
    ((∃ registry, ofCommands totalBits commands = .ok registry) ↔
      (1 ≤ totalBits ∧ totalBits ≤ 64) ∧ commands ≠ [] ∧
        (∀ command ∈ commands, command.HasUsableName) ∧
        (commands.map fun command => canonicalName command.name).Nodup) := by
  refine ⟨fun _ _ => Command.variant_eq_iff, ?_, ?_⟩
  · intro name
    rw [ofCommands_eq_duplicate_iff, nameFault_eq_duplicate_iff]
  · rw [exists_ofCommands_iff]
    constructor
    · intro hvalid
      exact ⟨⟨hvalid.one_le, hvalid.le_word⟩, hvalid.ne_nil, hvalid.usable,
        Command.nodup_variants_iff.mp hvalid.nodup⟩
    · intro hall
      obtain ⟨⟨hone, hword⟩, hnil, husable, hnodup⟩ := hall
      exact ⟨hone, hword, hnil, husable, Command.nodup_variants_iff.mpr hnodup⟩

end Registry

end CommandWord
