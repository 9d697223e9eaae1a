import CommandWord.Registry
import CommandWord.Mask

/-!
Registries for when none is given: a built-in one for a game on a map, with coordinates of seven
bits, directions of three and kinds of units of four, and random ones that a seed reproduces.
-/

namespace CommandWord.Sample

/-- The word width of the built-in registry, and of any registry that states none. -/
def totalBits : Nat := 24

def commands : List Command := [
  ⟨"SCOUT", [3]⟩,
  ⟨"EXPLORE", []⟩,
  ⟨"SAFE_DIR_EDGE", [3, 3, 6]⟩,
  ⟨"FLEE", []⟩,
  ⟨"DEFEND", [3]⟩,
  ⟨"ENEMY_EC", [7, 7, 4]⟩,
  ⟨"NEUTRAL_EC", [7, 7, 4]⟩,
  ⟨"EXPLODE", []⟩,
  ⟨"ATTACK_LOC", [7, 7]⟩,
  ⟨"HIDE", [3]⟩,
  ⟨"CAPTURE_NEUTRAL_EC", [7, 7]⟩,
  ⟨"STOP_PRODUCING_MUCKRAKERS", []⟩]

def bitLength (n : Nat) : Nat :=
  if n = 0 then 0 else Nat.log2 n + 1

/-- The bits that payloads of a random registry of `count` commands may use. One bit more than
the count needs stays for headers, so every command finds a code if any registry does. -/
def payloadBudget (totalBits count : Nat) : Nat :=
  totalBits - (bitLength count + 1)

variable [Randomness]

def randomFields : (arity budget : Nat) → Randomness.State → List Nat × Randomness.State
  | 0, _, state => ([], state)
  | arity + 1, budget, state =>
      if budget = 0 then ([], state)
      else
        let (width, behind) := Randomness.between state 1 1 (min budget 8)
        let (widths, last) := randomFields arity (budget - width) behind
        (width :: widths, last)

def randomCommands (budget : Nat) : (numbers : List Nat) → Randomness.State → List Command
  | [], _ => []
  | number :: rest, state =>
      let (arity, behind) := Randomness.between state 2 0 3
      let (fields, last) := randomFields arity budget behind
      ⟨"CMD_" ++ toString number, fields⟩ :: randomCommands budget rest last

def random (seed : UInt64) (totalBits count : Nat) : List Command :=
  randomCommands (payloadBudget totalBits count) (List.range count) (Randomness.ofSeed seed)

end CommandWord.Sample
