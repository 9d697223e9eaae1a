import CommandWord.Proofs.Header.Lengths
import CommandWord.Proofs.Registry.Validation
import Mathlib.Data.List.Forall2

/-!
How the budget is divided. A registry has header lengths exactly when every payload fits the
word, and the first payload that does not is the one that is reported. The lengths leave each
payload its room: in the per-command layout the payload's own, in the uniform layout that of the
largest payload. No subtraction on the way goes below zero.
-/

namespace CommandWord

namespace Layout

/-- How a layout divides the word between the payload of each command and its header. -/
def Divides (layout : Layout) (totalBits : Nat) (commands : List Command)
    (lengths : List Nat) : Prop :=
  match layout with
  | .perCommand =>
      List.Forall₂ (fun command length => command.payloadBits + length = totalBits)
        commands lengths
  | .uniform =>
      (∀ length ∈ lengths, largestPayload commands + length = totalBits) ∧
        List.Forall₂ (fun command length => command.payloadBits + length ≤ totalBits)
          commands lengths ∧
        ∃ (i : Nat) (command : Command) (length : Nat), commands[i]? = some command ∧
          lengths[i]? = some length ∧ command.payloadBits + length = totalBits

theorem divides_map_headerLength (layout : Layout) {totalBits : Nat} {commands : List Command}
    (hword : totalBits ≤ 64) (hnil : commands ≠ [])
    (hbudget : ∀ command ∈ commands, command.fields.sum ≤ totalBits) :
    layout.Divides totalBits commands (commands.map (layout.headerLength totalBits commands)) := by
  have hpayload : ∀ command ∈ commands, command.payloadBits = command.fields.sum :=
    fun command hmem => Command.payloadBits_of_le hword (hbudget command hmem)
  cases layout with
  | perCommand =>
    rw [Divides, List.forall₂_map_right_iff, List.forall₂_same]
    intro command hmem
    rw [hpayload command hmem, headerLength]
    exact Nat.add_sub_cancel' (hbudget command hmem)
  | uniform =>
    obtain ⟨⟨widest, hwidest, hsum⟩, hle⟩ := largestPayload_isGreatest hnil
    have hroom : largestPayload commands ≤ totalBits := hsum ▸ hbudget widest hwidest
    refine ⟨?_, ?_, ?_⟩
    · intro length hlength
      obtain ⟨command, -, rfl⟩ := List.mem_map.mp hlength
      exact Nat.add_sub_cancel' hroom
    · rw [List.forall₂_map_right_iff, List.forall₂_same]
      intro command hmem
      have hpart := hle command hmem
      rw [hpayload command hmem, headerLength]
      omega
    · obtain ⟨i, hi⟩ := List.mem_iff_getElem?.mp hwidest
      refine ⟨i, widest, totalBits - largestPayload commands, hi, ?_, ?_⟩
      · rw [List.getElem?_map, hi]
        rfl
      · rw [hpayload widest hwidest, hsum]
        exact Nat.add_sub_cancel' hroom

end Layout

/-- Subtraction that has no result below zero. -/
def subtract? (left right : Nat) : Option Nat :=
  if right ≤ left then some (left - right) else none

theorem subtract?_of_le {left right : Nat} (hle : right ≤ left) :
    subtract? left right = some (left - right) :=
  if_pos hle

theorem mapM_subtract?_of_le {lengths : List Nat} {shortest : Nat}
    (hshortest : ∀ length ∈ lengths, shortest ≤ length) :
    (lengths.mapM (subtract? · shortest)) = some (lengths.map (· - shortest)) := by
  induction lengths with
  | nil => rfl
  | cons length rest ih =>
    obtain ⟨hfirst, hrest⟩ := List.forall_mem_cons.mp hshortest
    rw [List.mapM_cons, subtract?_of_le hfirst, ih hrest]
    rfl

namespace Registry

/-- `freeBits`, with no answer where a subtraction has no result. -/
def checkedFreeBits (totalBits : Nat) :
    List Command → Option (Except ConfigurationError (List Nat))
  | [] => some (.ok [])
  | command :: rest =>
      if totalBits < command.payloadBits then
        some (.error (.payloadExceedsBudget command.name command.payloadBits totalBits))
      else do
        let free ← subtract? totalBits command.payloadBits
        let others ← checkedFreeBits totalBits rest
        return others.map (free :: ·)

/-- `headerLengths`, with no answer where a subtraction has no result. The uniform layout also
counts the bits that each command is left with beside the shortest header. -/
def checkedHeaderLengths (registry : Registry) (layout : Layout) :
    Option (Except ConfigurationError (List Nat)) := do
  match ← checkedFreeBits registry.totalBits registry.commands, layout with
  | .error cause, _ => return .error cause
  | .ok lengths, .perCommand => return .ok lengths
  | .ok lengths, .uniform =>
      let shortest := lengths.min?.getD registry.totalBits
      let unused ← lengths.mapM (subtract? · shortest)
      return .ok (unused.map fun _ => shortest)

theorem checkedFreeBits_eq (totalBits : Nat) (commands : List Command) :
    checkedFreeBits totalBits commands = some (freeBits totalBits commands) := by
  induction commands with
  | nil => rfl
  | cons command rest ih =>
    rw [checkedFreeBits, freeBits]
    by_cases hover : totalBits < command.payloadBits
    · rw [if_pos hover, if_pos hover]
    · rw [if_neg hover, if_neg hover, subtract?_of_le (Nat.le_of_not_lt hover), ih]
      rfl

/-- A subtraction that may have no result is never asked for one below zero. -/
theorem checkedHeaderLengths_eq (registry : Registry) (layout : Layout) :
    registry.checkedHeaderLengths layout = some (registry.headerLengths layout) := by
  rw [checkedHeaderLengths, checkedFreeBits_eq, headerLengths]
  cases hfree : freeBits registry.totalBits registry.commands with
  | error cause => rfl
  | ok lengths =>
    cases layout with
    | perCommand => rfl
    | uniform =>
      have hshortest : ∀ length ∈ lengths, lengths.min?.getD registry.totalBits ≤ length := by
        intro length hmem
        obtain ⟨shortest, hmin⟩ := Option.isSome_iff_exists.mp (List.isSome_min?_of_mem hmem)
        rw [hmin]
        exact (List.min?_eq_some_iff.mp hmin).2 length hmem
      simp only [Option.bind_eq_bind, Option.bind_some, mapM_subtract?_of_le hshortest,
        List.map_map]
      rfl

/-- Header lengths exist exactly when no payload is wider than the word; the first one that is
wider is reported, with its width up to the largest 32-bit number. Otherwise they divide the word
as the layout says. No subtraction goes below zero. -/
theorem header_lengths_divide_budget (registry : Registry) (layout : Layout) :
    ((∃ cause, registry.headerLengths layout = .error cause) ↔
      ∃ command ∈ registry.commands, registry.totalBits < command.fields.sum) ∧
    ((∃ command ∈ registry.commands, registry.totalBits < command.fields.sum) →
      ∃ i command, FirstOverBudget registry.totalBits registry.commands i command ∧
        registry.headerLengths layout = .error (.payloadExceedsBudget command.name
          (min command.fields.sum (2 ^ 32 - 1)) registry.totalBits)) ∧
    (∀ lengths, registry.headerLengths layout = .ok lengths →
      layout.Divides registry.totalBits registry.commands lengths) ∧
    registry.checkedHeaderLengths layout = some (registry.headerLengths layout) := by
  have hreport : (∃ command ∈ registry.commands, registry.totalBits < command.fields.sum) →
      ∃ i command, FirstOverBudget registry.totalBits registry.commands i command ∧
        registry.headerLengths layout = .error (.payloadExceedsBudget command.name
          (min command.fields.sum (2 ^ 32 - 1)) registry.totalBits) := by
    intro hover
    obtain ⟨i, command, hfirst, herror⟩ := registry.headerLengths_of_overBudget layout hover
    rw [command.payloadBits_eq] at herror
    exact ⟨i, command, hfirst, herror⟩
  by_cases hover : ∃ command ∈ registry.commands, registry.totalBits < command.fields.sum
  · obtain ⟨i, command, hfirst, herror⟩ := hreport hover
    refine ⟨⟨fun _ => hover, fun _ => ⟨_, herror⟩⟩, hreport, ?_,
      registry.checkedHeaderLengths_eq layout⟩
    intro lengths hok
    rw [herror] at hok
    contradiction
  · have hbudget : ∀ command ∈ registry.commands, command.fields.sum ≤ registry.totalBits :=
      fun command hmem => Nat.le_of_not_lt fun hlt => hover ⟨command, hmem, hlt⟩
    have hlengths := headerLengths_of_sum_le layout hbudget
    refine ⟨⟨?_, fun hexists => absurd hexists hover⟩, hreport, ?_,
      registry.checkedHeaderLengths_eq layout⟩
    · rintro ⟨cause, herror⟩
      rw [hlengths] at herror
      contradiction
    · intro lengths hok
      rw [hlengths] at hok
      rw [← Except.ok.inj hok]
      exact layout.divides_map_headerLength registry.valid.le_word registry.valid.ne_nil hbudget

/-- Two payloads are too wide, the first of them beyond all 32-bit numbers. -/
theorem header_lengths_divide_budget_beyond_limit :
    ∃ registry : Registry,
      registry.commands = [⟨"SMALL", [4]⟩, ⟨"HUGE", [4294967295, 5]⟩, ⟨"BIG", [5, 4]⟩] ∧
      registry.headerLengths .uniform = .error (.payloadExceedsBudget "HUGE" 4294967295 8) := by
  let registry : Registry :=
    ⟨8, [⟨"SMALL", [4]⟩, ⟨"HUGE", [4294967295, 5]⟩, ⟨"BIG", [5, 4]⟩], by decide⟩
  have hover : ∃ command ∈ registry.commands, registry.totalBits < command.fields.sum :=
    ⟨⟨"BIG", [5, 4]⟩, by decide, by decide⟩
  obtain ⟨i, command, hfirst, herror⟩ :=
    (header_lengths_divide_budget registry .uniform).2.1 hover
  have hlow : i ≠ 0 := by
    rintro rfl
    obtain rfl := Option.some.inj hfirst.at_place
    exact absurd hfirst.holds (by decide)
  have hhigh : ¬ 1 < i := by
    intro hlt
    exact absurd (hfirst.earlier 1 hlt _ rfl) (by decide)
  obtain rfl : i = 1 := by omega
  refine ⟨registry, rfl, ?_⟩
  obtain rfl := Option.some.inj hfirst.at_place
  exact herror

end Registry

end CommandWord
