import CommandWord.Header.Length
import CommandWord.Proofs.Lists.FirstPlace
import Mathlib.Algebra.Order.Ring.Nat

/-!
Header lengths against plain sums of widths. A payload is the sum of its widths as long as that
stays within `widthLimit`. Lengths exist exactly when no payload is wider than
the word; sums that stop at `widthLimit` decide this as the true sums do, because every word is
far below the limit.
-/

namespace CommandWord

/-- The widest payload, as a plain sum of widths. -/
def largestPayload (commands : List Command) : Nat :=
  (commands.map fun command => command.fields.sum).max?.getD 0

/-- The header length that a layout gives a command. -/
def Layout.headerLength (layout : Layout) (totalBits : Nat) (commands : List Command)
    (command : Command) : Nat :=
  match layout with
  | .perCommand => totalBits - command.fields.sum
  | .uniform => totalBits - largestPayload commands

theorem largestPayload_isGreatest {commands : List Command} (hnil : commands ≠ []) :
    (∃ command ∈ commands, command.fields.sum = largestPayload commands) ∧
      ∀ command ∈ commands, command.fields.sum ≤ largestPayload commands := by
  obtain ⟨largest, hlargest⟩ := Option.isSome_iff_exists.mp
    (List.isSome_max?_of_ne_nil (l := commands.map fun command => command.fields.sum)
      (by simpa using hnil))
  have hvalue : largestPayload commands = largest := by rw [largestPayload, hlargest]; rfl
  obtain ⟨hmem, hle⟩ := List.max?_eq_some_iff.mp hlargest
  rw [hvalue]
  exact ⟨List.mem_map.mp hmem, List.forall_mem_map.mp hle⟩

namespace Layout

variable (layout : Layout) (totalBits : Nat) {commands : List Command}

/-- Header and payload fit the word side by side. -/
theorem headerLength_add_le {command : Command} (hmem : command ∈ commands)
    (hbudget : command.fields.sum ≤ totalBits) :
    layout.headerLength totalBits commands command + command.fields.sum ≤ totalBits := by
  have hle := (largestPayload_isGreatest (List.ne_nil_of_mem hmem)).2 command hmem
  cases layout <;> simp only [headerLength] <;> omega

/-- No header is shorter than what the largest payload leaves. -/
theorem le_headerLength {command : Command} (hmem : command ∈ commands) :
    totalBits - largestPayload commands ≤ layout.headerLength totalBits commands command := by
  have hle := (largestPayload_isGreatest (List.ne_nil_of_mem hmem)).2 command hmem
  cases layout <;> simp only [headerLength] <;> omega

theorem exists_headerLength_eq (hnil : commands ≠ []) :
    ∃ command ∈ commands,
      layout.headerLength totalBits commands command = totalBits - largestPayload commands := by
  obtain ⟨command, hmem, hsum⟩ := (largestPayload_isGreatest hnil).1
  refine ⟨command, hmem, ?_⟩
  cases layout <;> simp only [headerLength, hsum]

theorem min?_map_headerLength (hnil : commands ≠ []) :
    (commands.map (layout.headerLength totalBits commands)).min? =
      some (totalBits - largestPayload commands) := by
  rw [List.min?_eq_some_iff]
  constructor
  · exact List.mem_map.mpr (exists_headerLength_eq layout totalBits hnil)
  · exact List.forall_mem_map.mpr fun _ hmem => le_headerLength layout totalBits hmem

end Layout

namespace Command

theorem foldl_addWidths (widths : List Nat) {start : Nat} (hstart : start ≤ widthLimit) :
    widths.foldl addWidths start = min (start + widths.sum) widthLimit := by
  induction widths generalizing start with
  | nil => simp [Nat.min_eq_left hstart]
  | cons width widths ih =>
    have hnext : addWidths start width ≤ widthLimit := Nat.min_le_right _ _
    rw [List.foldl_cons, ih hnext, List.sum_cons]
    simp only [addWidths]
    omega

/-- The payload is the sum of the widths, or `widthLimit` where that is smaller. -/
theorem payloadBits_eq (command : Command) :
    command.payloadBits = min command.fields.sum widthLimit := by
  simpa [payloadBits] using foldl_addWidths command.fields (Nat.zero_le widthLimit)

theorem payloadBits_le_iff (command : Command) {bits : Nat} (hbits : bits ≤ 64) :
    command.payloadBits ≤ bits ↔ command.fields.sum ≤ bits := by
  rw [payloadBits_eq, show widthLimit = 4294967295 from rfl]
  omega

theorem payloadBits_of_le {command : Command} {bits : Nat} (hbits : bits ≤ 64)
    (hsum : command.fields.sum ≤ bits) : command.payloadBits = command.fields.sum := by
  rw [payloadBits_eq, show widthLimit = 4294967295 from rfl]
  omega

end Command

/-- The first command whose payload, as a plain sum of widths, is wider than the word. -/
abbrev FirstOverBudget (totalBits : Nat) : List Command → Nat → Command → Prop :=
  FirstPlace fun command => totalBits < command.fields.sum

/-- Sums that stop at `widthLimit` find the first payload that is too wide. -/
theorem exists_firstOverBudget {totalBits : Nat} (hword : totalBits ≤ 64)
    {commands : List Command} (hover : ∃ command ∈ commands, totalBits < command.fields.sum) :
    ∃ i command, FirstOverBudget totalBits commands i command ∧
      (commands.find? fun command => totalBits < command.payloadBits) = some command := by
  have hpayload : ∀ command : Command,
      totalBits < command.payloadBits ↔ totalBits < command.fields.sum := by
    intro command
    rw [← Nat.not_le, command.payloadBits_le_iff hword, Nat.not_le]
  simp only [hpayload]
  cases hfound : commands.find? fun command => totalBits < command.fields.sum with
  | none =>
    obtain ⟨command, hmem, hsum⟩ := hover
    exact absurd (decide_eq_true hsum) (List.find?_eq_none.mp hfound command hmem)
  | some command =>
    obtain ⟨i, hfirst⟩ := exists_firstPlace_of_find? hfound
    exact ⟨i, command, hfirst, rfl⟩

namespace Registry

/-- The first payload over the budget decides; without one, every command keeps the rest. -/
theorem freeBits_eq (totalBits : Nat) (commands : List Command) :
    freeBits totalBits commands =
      match commands.find? fun command => totalBits < command.payloadBits with
      | some command =>
          .error (.payloadExceedsBudget command.name command.payloadBits totalBits)
      | none => .ok (commands.map fun command => totalBits - command.payloadBits) := by
  induction commands with
  | nil => rfl
  | cons command rest ih =>
    rw [freeBits, ih, List.find?_cons]
    by_cases hover : totalBits < command.payloadBits
    · simp [hover]
    · rw [if_neg hover, decide_eq_false hover]
      cases rest.find? fun command => totalBits < command.payloadBits <;> rfl

theorem headerLengths_of_sum_le {registry : Registry} (layout : Layout)
    (hbudget : ∀ command ∈ registry.commands, command.fields.sum ≤ registry.totalBits) :
    registry.headerLengths layout = .ok (registry.commands.map
      (layout.headerLength registry.totalBits registry.commands)) := by
  have hword := registry.valid.le_word
  have hnone : (registry.commands.find? fun command =>
      registry.totalBits < command.payloadBits) = none := by
    apply List.find?_eq_none.mpr
    intro command hmem
    simpa using (command.payloadBits_le_iff hword).mpr (hbudget command hmem)
  have hfree : freeBits registry.totalBits registry.commands =
      .ok (registry.commands.map fun command => registry.totalBits - command.fields.sum) := by
    rw [freeBits_eq, hnone]
    refine congrArg Except.ok (List.map_congr_left ?_)
    intro command hmem
    rw [Command.payloadBits_of_le hword (hbudget command hmem)]
  have hshortest : (registry.commands.map fun command =>
      registry.totalBits - command.fields.sum).min? =
        some (registry.totalBits - largestPayload registry.commands) :=
    Layout.min?_map_headerLength .perCommand _ registry.valid.ne_nil
  cases layout with
  | perCommand =>
    simp [headerLengths, hfree, Layout.headerLength, bind, Except.bind, pure, Except.pure]
  | uniform =>
    simp [headerLengths, hfree, hshortest, Layout.headerLength, bind, Except.bind, pure,
      Except.pure]

/-- The first payload that is wider than the word is the one that is reported. -/
theorem headerLengths_of_overBudget (registry : Registry) (layout : Layout)
    (hover : ∃ command ∈ registry.commands, registry.totalBits < command.fields.sum) :
    ∃ i command, FirstOverBudget registry.totalBits registry.commands i command ∧
      registry.headerLengths layout = .error (.payloadExceedsBudget command.name
        command.payloadBits registry.totalBits) := by
  obtain ⟨i, command, hfirst, hfound⟩ := exists_firstOverBudget registry.valid.le_word hover
  refine ⟨i, command, hfirst, ?_⟩
  rw [headerLengths, freeBits_eq, hfound]
  rfl

end Registry

end CommandWord
