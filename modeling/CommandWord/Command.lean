/-!
A command kind: its name and the widths of its payload fields. Widths come from outside and
may be absurd, so sums of widths stop at the largest 32-bit number instead of running on; a
registry far over its budget then still fails the budget check.

A name is an ASCII identifier, and from it comes the variant under which the emitted sources
declare the command: the parts between underscores, each with an upper-case first letter and
lower-case rest, joined. Two names that differ only in case or underscores can have one variant.
Which ones have shows in the canonical form of a name: lower case, without the underscores that
leave no trace in the variant. Underscores at the ends, repeated ones and those in front of a
digit leave none.
-/

namespace CommandWord

structure Command where
  name : String
  fields : List Nat
  deriving DecidableEq

def widthLimit : Nat := UInt32.size - 1

/-- Addition of widths that stops at `widthLimit`. -/
def addWidths (left right : Nat) : Nat := min (left + right) widthLimit

namespace Command

def payloadBits (command : Command) : Nat :=
  command.fields.foldl addWidths 0

/-- The running sums that `fieldOffsets` lists: `start` is the offset of the first field. -/
def offsetsFrom (start : Nat) : List Nat → List Nat
  | [] => []
  | width :: widths => start :: offsetsFrom (addWidths start width) widths

def fieldOffsets (command : Command) : List Nat :=
  offsetsFrom 0 command.fields

end Command

/-! ### Names -/

/-- The first character is one of `starts` and every other one of `continues`, and there is a
first. -/
def IsSpelled (starts continues : Char → Bool) (name : String) : Prop :=
  match name.toList with
  | [] => False
  | first :: rest => starts first ∧ rest.all continues

instance (starts continues : Char → Bool) (name : String) :
    Decidable (IsSpelled starts continues name) := by
  unfold IsSpelled
  split <;> infer_instance

def IsIdentifier (name : String) : Prop :=
  IsSpelled (fun c => c.isAlpha || c == '_') (fun c => c.isAlphanum || c == '_') name

instance (name : String) : Decidable (IsIdentifier name) :=
  inferInstanceAs (Decidable (IsSpelled _ _ _))

def nameParts (name : List Char) : List (List Char) :=
  (name.splitOn '_').filter (· ≠ [])

def capitalize : List Char → List Char
  | [] => []
  | first :: rest => first.toUpper :: rest.map Char.toLower

/-- A part of a name behind other parts. Only a part that begins with a letter is kept apart. -/
def markPart : List Char → List Char
  | [] => []
  | first :: rest => if first.isAlpha then '_' :: first :: rest else first :: rest

/-- The parts of a name in lower case, with underscores where the variant shows a boundary. -/
def canonicalName (name : String) : String :=
  match nameParts (name.toList.map Char.toLower) with
  | [] => ""
  | first :: rest => String.ofList (first ++ rest.flatMap markPart)

namespace Command

def variant (command : Command) : String :=
  String.ofList ((nameParts command.name.toList).flatMap capitalize)

/-- The name is an identifier, and so is its variant, which is not the reserved word `Self`. -/
def HasUsableName (command : Command) : Prop :=
  IsIdentifier command.name ∧ IsIdentifier command.variant ∧ command.variant ≠ "Self"

instance (command : Command) : Decidable command.HasUsableName :=
  inferInstanceAs (Decidable (_ ∧ _ ∧ _))

end Command

end CommandWord
