import CommandWord.Command
import CommandWord.Error

/-!
The registry: the closed, ordered set of commands that share one word. It exists only when its
word has between 1 and 64 bits, it has a command, and every command has a usable name whose
variant no earlier command has. `Registry.ofCommands` reports the first thing that is wrong.
-/

namespace CommandWord

structure ValidRegistry (totalBits : Nat) (commands : List Command) : Prop where
  one_le : 1 ≤ totalBits
  le_word : totalBits ≤ 64
  ne_nil : commands ≠ []
  usable : ∀ command ∈ commands, command.HasUsableName
  nodup : (commands.map Command.variant).Nodup

structure Registry where
  totalBits : Nat
  commands : List Command
  valid : ValidRegistry totalBits commands

namespace Registry

/-- The first command whose name cannot stand, given the variants `seen` before it. -/
def nameFault (seen : List String) : List Command → Option ConfigurationError
  | [] => none
  | command :: rest =>
      if ¬ command.HasUsableName then some (.invalidName command.name)
      else if command.variant ∈ seen then some (.duplicateCommand command.name)
      else nameFault (command.variant :: seen) rest

def fault (totalBits : Nat) (commands : List Command) : Option ConfigurationError :=
  if totalBits = 0 ∨ 64 < totalBits then some (.invalidTotalBits totalBits)
  else if commands = [] then some .emptyRegistry
  else nameFault [] commands

theorem nameFault_eq_none {seen : List String} {commands : List Command}
    (hnone : nameFault seen commands = none) :
    (∀ command ∈ commands, command.HasUsableName ∧ command.variant ∉ seen) ∧
      (commands.map Command.variant).Nodup := by
  induction commands generalizing seen with
  | nil => simp
  | cons command rest ih =>
    simp only [nameFault] at hnone
    split at hnone
    · contradiction
    next husable =>
      split at hnone
      · contradiction
      next hseen =>
        obtain ⟨hrest, hnodup⟩ := ih hnone
        simp only [Decidable.not_not] at husable
        refine ⟨?_, ?_⟩
        · intro other hother
          rcases List.mem_cons.mp hother with rfl | hother
          · exact ⟨husable, hseen⟩
          · have hfresh := hrest other hother
            exact ⟨hfresh.1, fun h => hfresh.2 (List.mem_cons_of_mem _ h)⟩
        · rw [List.map_cons, List.nodup_cons]
          refine ⟨?_, hnodup⟩
          intro hmem
          obtain ⟨other, hother, heq⟩ := List.mem_map.mp hmem
          exact (hrest other hother).2 (heq ▸ List.mem_cons_self ..)

theorem valid_of_fault_eq_none {totalBits : Nat} {commands : List Command}
    (hnone : fault totalBits commands = none) : ValidRegistry totalBits commands := by
  simp only [fault] at hnone
  split at hnone
  · contradiction
  next hbits =>
    split at hnone
    · contradiction
    next hnil =>
      obtain ⟨hnames, hnodup⟩ := nameFault_eq_none hnone
      exact ⟨by omega, by omega, hnil, fun c hc => (hnames c hc).1, hnodup⟩

def ofCommands (totalBits : Nat) (commands : List Command) :
    Except ConfigurationError Registry :=
  match hfault : fault totalBits commands with
  | some cause => .error cause
  | none => .ok ⟨totalBits, commands, valid_of_fault_eq_none hfault⟩

def command? (registry : Registry) (id : Nat) : Option Command :=
  registry.commands[id]?

def find? (registry : Registry) (name : String) : Option Nat :=
  registry.commands.findIdx? (·.name = name)

end Registry

end CommandWord
