import CommandWord.Registry

/-!
Header lengths. A command's header fills the bits that its payload leaves free; in the uniform
layout every command gets the shortest of those lengths instead, so the top bits of commands
with smaller payloads stay unused. How many bits that are in all only goes to the log where the
lengths are assigned, so it is not computed here; the report counts them.
-/

namespace CommandWord

inductive Layout where
  | perCommand
  | uniform
  deriving DecidableEq

namespace Layout

def name : Layout → String
  | perCommand => "per-command"
  | uniform => "uniform"

def ofName? (name : String) : Option Layout :=
  [perCommand, uniform].find? (·.name = name)

end Layout

namespace Registry

/-- The bits left beside the payload, or the first command whose payload alone is too wide. -/
def freeBits (totalBits : Nat) : List Command → Except ConfigurationError (List Nat)
  | [] => .ok []
  | command :: rest =>
      if totalBits < command.payloadBits then
        .error (.payloadExceedsBudget command.name command.payloadBits totalBits)
      else
        (freeBits totalBits rest).map ((totalBits - command.payloadBits) :: ·)

def headerLengths (registry : Registry) (layout : Layout) :
    Except ConfigurationError (List Nat) := do
  let lengths ← freeBits registry.totalBits registry.commands
  match layout with
  | .perCommand => return lengths
  | .uniform => return lengths.map fun _ => lengths.min?.getD registry.totalBits

end Registry

end CommandWord
