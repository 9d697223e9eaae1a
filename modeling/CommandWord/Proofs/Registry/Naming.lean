import CommandWord.Proofs.Registry.Validation
import Mathlib.Order.Nat

/-!
What validation reports about names, and what it promises. The report is on the first command
whose name is not usable or whose variant an earlier command has. Commands that pass are told
apart by their names, so looking up the name of a command leads back to it and to no other.
-/

namespace CommandWord

theorem Command.variant_congr {first second : Command} (hname : first.name = second.name) :
    first.variant = second.variant := by
  unfold variant
  rw [hname]

/-- The command at place `i` cannot stand: its name is not usable, or an earlier command has its
variant. -/
structure OffendsAt (commands : List Command) (i : Nat) (command : Command) : Prop where
  at_place : commands[i]? = some command
  offends : ¬ command.HasUsableName ∨
    ∃ j < i, ∃ earlier, commands[j]? = some earlier ∧ earlier.variant = command.variant

/-- The command at place `i` is the first that cannot stand. -/
structure FirstOffence (commands : List Command) (i : Nat) (command : Command) : Prop where
  here : OffendsAt commands i command
  earlier : ∀ j < i, ∀ other, ¬ OffendsAt commands j other

section

variable {commands : List Command} {i : Nat}

theorem exists_firstOffence (hexists : ∃ i command, OffendsAt commands i command) :
    ∃ i command, FirstOffence commands i command := by
  classical
  obtain ⟨command, hhere⟩ := Nat.find_spec hexists
  refine ⟨Nat.find hexists, command, hhere, ?_⟩
  intro j hj other hother
  exact Nat.find_min hexists hj ⟨other, hother⟩

/-- Up to the first command that offends, the names are usable and the variants differ. -/
theorem clean_take (hclean : ∀ j < i, ∀ other, ¬ OffendsAt commands j other) :
    (∀ command ∈ commands.take i, command.HasUsableName) ∧
      ((commands.take i).map Command.variant).Nodup := by
  constructor
  · intro command hmem
    obtain ⟨j, hj⟩ := List.mem_iff_getElem?.mp hmem
    rw [List.getElem?_take] at hj
    split at hj
    next hlt =>
      by_contra husable
      exact hclean j hlt command ⟨hj, Or.inl husable⟩
    next => contradiction
  · rw [List.nodup_iff_getElem?_ne_getElem?]
    intro k j hkj hj heq
    rw [List.length_map, List.length_take] at hj
    have hbefore : j < i ∧ j < commands.length := by omega
    rw [List.getElem?_map, List.getElem?_map, List.getElem?_take_of_lt hbefore.1,
      List.getElem?_take_of_lt (by omega), List.getElem?_eq_getElem hbefore.2,
      List.getElem?_eq_getElem (by omega : k < commands.length)] at heq
    refine hclean j hbefore.1 commands[j] ⟨List.getElem?_eq_getElem hbefore.2, Or.inr ?_⟩
    exact ⟨k, hkj, commands[k], List.getElem?_eq_getElem (by omega), Option.some.inj heq⟩

theorem OffendsAt.take_append {command : Command} (hhere : OffendsAt commands i command) :
    commands.take i ++ command :: commands.drop (i + 1) = commands := by
  obtain ⟨hi, hcommand⟩ := List.getElem?_eq_some_iff.mp hhere.at_place
  rw [← hcommand, ← List.drop_eq_getElem_cons hi, List.take_append_drop]

/-- A usable name can only offend by its variant. -/
theorem OffendsAt.repeats {command : Command} (hhere : OffendsAt commands i command)
    (hname : command.HasUsableName) :
    command.variant ∈ (commands.take i).map Command.variant := by
  obtain ⟨j, hj, earlier, hearlier, hvariant⟩ := hhere.offends.resolve_left (not_not.mpr hname)
  rw [← hvariant]
  apply List.mem_map_of_mem
  apply List.mem_of_getElem? (i := j)
  rw [List.getElem?_take_of_lt hj, hearlier]

end

namespace Registry

section

variable {before after : List Command} {command : Command}

/-- The scan passes usable names of different variants and keeps the variants. -/
theorem nameFault_behind (husable : ∀ other ∈ before, other.HasUsableName)
    (hnodup : (before.map Command.variant).Nodup) :
    nameFault [] (before ++ after) = nameFault (before.map Command.variant).reverse after := by
  rw [nameFault_append _ (fun other hmem => ⟨husable other hmem, List.not_mem_nil⟩) hnodup,
    List.append_nil]

theorem nameFault_of_repeated (husable : ∀ other ∈ before, other.HasUsableName)
    (hnodup : (before.map Command.variant).Nodup) (hname : command.HasUsableName)
    (hrepeated : command.variant ∈ before.map Command.variant) :
    nameFault [] (before ++ command :: after) = some (.duplicateCommand command.name) := by
  rw [nameFault_behind husable hnodup, nameFault, if_neg (not_not.mpr hname),
    if_pos (List.mem_reverse.mpr hrepeated)]

theorem nameFault_of_unusable (husable : ∀ other ∈ before, other.HasUsableName)
    (hnodup : (before.map Command.variant).Nodup) (hname : ¬ command.HasUsableName) :
    nameFault [] (before ++ command :: after) = some (.invalidName command.name) := by
  rw [nameFault_behind husable hnodup, nameFault, if_pos hname]

end

theorem nameFault_of_firstOffence {commands : List Command} {i : Nat} {command : Command}
    (hfirst : FirstOffence commands i command) :
    (¬ command.HasUsableName ∧ nameFault [] commands = some (.invalidName command.name)) ∨
      command.HasUsableName ∧
        nameFault [] commands = some (.duplicateCommand command.name) := by
  obtain ⟨husable, hnodup⟩ := clean_take hfirst.earlier
  rw [← hfirst.here.take_append]
  by_cases hname : command.HasUsableName
  · exact Or.inr ⟨hname, nameFault_of_repeated husable hnodup hname (hfirst.here.repeats hname)⟩
  · exact Or.inl ⟨hname, nameFault_of_unusable husable hnodup hname⟩

/-- Without an offending command, commands are valid beside a word of a usable width. -/
theorem valid_of_clean {totalBits : Nat} {commands : List Command}
    (hbits : 1 ≤ totalBits ∧ totalBits ≤ 64) (hnil : commands ≠ [])
    (hclean : ∀ i command, ¬ OffendsAt commands i command) :
    ValidRegistry totalBits commands := by
  obtain ⟨husable, hnodup⟩ :=
    clean_take (i := commands.length) fun j _ other => hclean j other
  rw [List.take_length] at husable hnodup
  exact ⟨hbits.1, hbits.2, hnil, husable, hnodup⟩

/-- The scan that keeps the names as well as the variants. A variant is only kept behind a name
that is new. -/
def scanFault (names variants : List String) : List Command → Option ConfigurationError
  | [] => none
  | command :: rest =>
      if ¬ command.HasUsableName then some (.invalidName command.name)
      else if command.name ∈ names then some (.duplicateCommand command.name)
      else if command.variant ∈ variants then some (.duplicateCommand command.name)
      else scanFault (command.name :: names) (command.variant :: variants) rest

/-- As long as the variant of every kept name is kept, the names decide nothing. -/
theorem scanFault_eq_nameFault {names variants : List String} (commands : List Command)
    (hkept : ∀ command : Command, command.name ∈ names → command.variant ∈ variants) :
    scanFault names variants commands = nameFault variants commands := by
  induction commands generalizing names variants with
  | nil => rfl
  | cons command rest ih =>
    rw [scanFault, nameFault]
    by_cases husable : command.HasUsableName
    · rw [if_neg (not_not.mpr husable), if_neg (not_not.mpr husable)]
      by_cases hvariant : command.variant ∈ variants
      · rw [if_pos hvariant, if_pos hvariant, ite_self]
      · have hname : command.name ∉ names := fun hmem => hvariant (hkept command hmem)
        rw [if_neg hname, if_neg hvariant, if_neg hvariant]
        apply ih
        intro other hother
        rcases List.mem_cons.mp hother with hsame | hother
        · rw [Command.variant_congr hsame]
          exact List.mem_cons_self
        · exact List.mem_cons_of_mem _ (hkept other hother)
    · rw [if_pos husable, if_pos husable]

variable {registry : Registry}

theorem find?_name {i : Nat} {command : Command}
    (hcommand : registry.commands[i]? = some command) :
    registry.find? command.name = some i := by
  obtain ⟨hi, rfl⟩ := List.getElem?_eq_some_iff.mp hcommand
  apply List.findIdx?_eq_some_iff_getElem.mpr
  refine ⟨hi, decide_eq_true rfl, ?_⟩
  intro j hj hsame
  have hnames := List.nodup_iff_getElem?_ne_getElem?.mp registry.valid.nodup_names j i hj
    (by rwa [List.length_map])
  apply hnames
  rw [List.getElem?_map, List.getElem?_map, List.getElem?_eq_getElem hi,
    List.getElem?_eq_getElem (by omega)]
  exact congrArg some (of_decide_eq_true hsame)

theorem find?_eq_some_iff {name : String} {i : Nat} : registry.find? name = some i ↔
    ∃ command, registry.commands[i]? = some command ∧ command.name = name := by
  constructor
  · intro hfind
    obtain ⟨hi, hname, -⟩ := List.findIdx?_eq_some_iff_getElem.mp hfind
    exact ⟨registry.commands[i], List.getElem?_eq_getElem hi, of_decide_eq_true hname⟩
  · rintro ⟨command, hcommand, rfl⟩
    exact find?_name hcommand

theorem find?_of_notMem {name : String} (hname : name ∉ registry.commands.map Command.name) :
    registry.find? name = none := by
  apply List.findIdx?_eq_none_iff.mpr
  intro command hmem
  apply decide_eq_false
  rintro rfl
  exact hname (List.mem_map_of_mem hmem)

/-- Validation reports the width of the word first, then an empty list, and then the first command
that cannot stand. Otherwise it keeps the commands as they are; their variants and names tell them
apart, and a name is found exactly where its command stands. Keeping the names as well as the
variants changes none of this. -/
theorem validation_reports_first_offence (totalBits : Nat) (commands : List Command) :
    (¬ (1 ≤ totalBits ∧ totalBits ≤ 64) →
      ofCommands totalBits commands = .error (.invalidTotalBits totalBits)) ∧
    (1 ≤ totalBits ∧ totalBits ≤ 64 →
      (commands = [] → ofCommands totalBits commands = .error .emptyRegistry) ∧
      ((∃ i command, OffendsAt commands i command) →
        ∃ i command, FirstOffence commands i command ∧
          ((¬ command.HasUsableName ∧
              ofCommands totalBits commands = .error (.invalidName command.name)) ∨
            command.HasUsableName ∧
              ofCommands totalBits commands = .error (.duplicateCommand command.name))) ∧
      (commands ≠ [] → (∀ i command, ¬ OffendsAt commands i command) →
        ∃ registry, ofCommands totalBits commands = .ok registry ∧
          registry.totalBits = totalBits ∧ registry.commands = commands)) ∧
    (∀ registry, ofCommands totalBits commands = .ok registry →
      (registry.commands.map Command.variant).Nodup ∧
      (∀ command ∈ registry.commands,
        IsIdentifier command.variant ∧ command.variant ≠ "Self") ∧
      (registry.commands.map Command.name).Nodup ∧
      (∀ (i : Nat) (command : Command), registry.commands[i]? = some command →
        registry.find? command.name = some i) ∧
      ∀ name, name ∉ registry.commands.map Command.name → registry.find? name = none) ∧
    scanFault [] [] commands = nameFault [] commands := by
  refine ⟨?_, ?_, ?_, scanFault_eq_nameFault commands nofun⟩
  · intro hbits
    apply ofCommands_of_fault
    rw [fault, if_pos (by omega)]
  · intro hbits
    have hwidth : ¬ (totalBits = 0 ∨ 64 < totalBits) := by omega
    refine ⟨?_, ?_, ?_⟩
    · intro hnil
      apply ofCommands_of_fault
      rw [fault, if_neg hwidth, if_pos hnil]
    · intro hexists
      obtain ⟨i, command, hfirst⟩ := exists_firstOffence hexists
      have hnil : commands ≠ [] := List.ne_nil_of_mem (List.mem_of_getElem? hfirst.here.at_place)
      have hnames : fault totalBits commands = nameFault [] commands := by
        rw [fault, if_neg hwidth, if_neg hnil]
      refine ⟨i, command, hfirst, ?_⟩
      rcases nameFault_of_firstOffence hfirst with ⟨hname, hfault⟩ | ⟨hname, hfault⟩
      · exact Or.inl ⟨hname, ofCommands_of_fault (hnames.trans hfault)⟩
      · exact Or.inr ⟨hname, ofCommands_of_fault (hnames.trans hfault)⟩
    · intro hnil hclean
      exact ⟨_, ofCommands_of_valid (valid_of_clean hbits hnil hclean), rfl, rfl⟩
  · intro registry _
    have hvalid := registry.valid
    exact ⟨hvalid.nodup, fun command hmem => (hvalid.usable command hmem).2,
      hvalid.nodup_names, fun i command => find?_name, fun name => find?_of_notMem⟩

/-- The second command has the variant of the first, and only the third has no usable name. -/
theorem validation_reports_duplicate_variant :
    ofCommands 8 [⟨"two_coords", [3]⟩, ⟨"TWO_COORDS", []⟩, ⟨"1X", []⟩] =
      .error (.duplicateCommand "TWO_COORDS") := by
  let commands : List Command := [⟨"two_coords", [3]⟩, ⟨"TWO_COORDS", []⟩, ⟨"1X", []⟩]
  have hoffends : OffendsAt commands 1 ⟨"TWO_COORDS", []⟩ :=
    ⟨rfl, Or.inr ⟨0, by decide, ⟨"two_coords", [3]⟩, rfl, by decide⟩⟩
  obtain ⟨i, command, hfirst, hreport⟩ :=
    ((validation_reports_first_offence 8 commands).2.1 (by decide)).2.1 ⟨1, _, hoffends⟩
  have hhigh : ¬ 1 < i := fun hlt => hfirst.earlier 1 hlt _ hoffends
  have hlow : i ≠ 0 := by
    rintro rfl
    obtain rfl := Option.some.inj hfirst.here.at_place
    rcases hfirst.here.offends with hname | ⟨j, hj, -⟩
    · exact hname (by decide)
    · contradiction
  obtain rfl : i = 1 := by omega
  obtain rfl := Option.some.inj hfirst.here.at_place
  rcases hreport with ⟨hname, -⟩ | ⟨-, herror⟩
  · exact absurd (by decide) hname
  · exact herror

end Registry

end CommandWord
