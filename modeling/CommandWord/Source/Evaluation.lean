import CommandWord.Source.Routine
import CommandWord.Source.WordArithmetic

/-!
What a program does. The encoder holds the values of a message against its widths, puts the
terms of its kind together, adds one and applies the mask. The decoder takes these steps back
and runs through its tests until one succeeds. Both compute in the words of the target alone.
-/

namespace CommandWord

structure WordMessage (size : Nat) where
  kind : String
  values : List (BitVec size)
  deriving DecidableEq

structure WordTarget (size : Nat) where
  arithmetic : WordArithmetic size
  kind : Command → String

namespace WordTarget

variable {size : Nat}

/-- Hold one value against a width. A width that fills the word allows every value that is not
negative. -/
def check (target : WordTarget size) (value : BitVec size) (field width : Nat) :
    Except Halt Unit :=
  if target.arithmetic.isNegative value then .error (.fieldRange field)
  else if width < size then do
    let above ← target.arithmetic.shiftRight value width
    if above = 0 then .ok () else .error (.fieldRange field)
  else .ok ()

def checkAll (target : WordTarget size) (values : List (BitVec size)) :
    List (Nat × Nat) → Except Halt Unit
  | [] => .ok ()
  | (index, width) :: rest =>
      match values[index]? with
      | none => .error .fault
      | some value => do
          target.check value index width
          target.checkAll values rest

def term (target : WordTarget size) (values : List (BitVec size)) :
    Term → Except Halt (BitVec size)
  | .literal value => target.arithmetic.literal value.toNat
  | .field index shift =>
      match values[index]? with
      | some value => target.arithmetic.shiftLeft value shift
      | none => .error .fault

def terms (target : WordTarget size) (values : List (BitVec size)) :
    List Term → Except Halt (BitVec size)
  | [] => .ok 0
  | first :: rest => do
      let low ← target.term values first
      let high ← target.terms values rest
      return low ||| high

def encodeArm (target : WordTarget size) (mask : UInt64) (arm : EncodeArm)
    (values : List (BitVec size)) : Except Halt (BitVec size) :=
  if values.length ≠ arm.checks.length then .error .wrongArity
  else do
    target.checkAll values arm.checks
    let raw ← target.terms values arm.terms
    let next ← target.arithmetic.successor raw
    return next ^^^ (← target.arithmetic.literal mask.toNat)

def encode (target : WordTarget size) (program : Program) (message : WordMessage size) :
    Except Halt (BitVec size) :=
  match program.encoder.find? fun arm => arm.kind = message.kind with
  | none => .error .unknownKind
  | some arm => target.encodeArm program.mask arm message.values

def rawValue (target : WordTarget size) (program : Program) (value : BitVec size) :
    Except Halt (BitVec size) := do
  let mask ← target.arithmetic.literal program.mask.toNat
  match program.cut with
  | none => target.arithmetic.predecessor (value ^^^ mask)
  | some cut =>
      let above ← target.arithmetic.shiftRight value program.totalBits
      if above ≠ 0 then .error .mismatch
      else
        let raw ← target.arithmetic.predecessor (value ^^^ mask)
        return raw &&& (← target.arithmetic.literal cut.toNat)

def extract (target : WordTarget size) (raw : BitVec size) : Extract → Except Halt (BitVec size)
  | .zero => .ok 0
  | .bits shift mask => do
      let shifted ← target.arithmetic.shiftRight raw shift
      return shifted &&& (← target.arithmetic.literal mask.toNat)

def extractAll (target : WordTarget size) (raw : BitVec size) :
    List Extract → Except Halt (List (BitVec size))
  | [] => .ok []
  | first :: rest => do
      let value ← target.extract raw first
      return value :: (← target.extractAll raw rest)

def checkPadding (target : WordTarget size) (raw : BitVec size) : Option Nat → Except Halt Unit
  | none => .ok ()
  | some used => do
      let above ← target.arithmetic.shiftRight raw used
      if above = 0 then .ok () else .error .mismatch

def decodeArms (target : WordTarget size) (raw : BitVec size) :
    List DecodeArm → Except Halt (WordMessage size)
  | [] => .error .mismatch
  | arm :: rest => do
      let headerMask ← target.arithmetic.literal arm.headerMask.toNat
      let code ← target.arithmetic.literal arm.code.toNat
      if raw &&& headerMask = code then
        target.checkPadding raw arm.padding
        return ⟨arm.kind, ← target.extractAll raw arm.fields⟩
      else target.decodeArms raw rest

def decode (target : WordTarget size) (program : Program) (value : BitVec size) :
    Except Halt (WordMessage size) := do
  let raw ← target.rawValue program value
  target.decodeArms raw program.decoder

def program (target : WordTarget size) (codec : Codec) : Program :=
  (Routine.ofCodec codec target.kind).program size

end WordTarget

namespace Program

def shiftCounts (program : Program) : List Nat :=
  program.cut.toList.map (fun _ => program.totalBits) ++
  program.encoder.flatMap (fun arm => arm.terms.filterMap fun
    | .field _ shift => some shift
    | .literal _ => none) ++
  program.decoder.flatMap fun arm =>
    arm.padding.toList ++ arm.fields.filterMap fun
      | .bits shift _ => some shift
      | .zero => none

end Program

def rustTarget (size : Nat) : WordTarget size := ⟨.unsigned size, Command.variant⟩

def javaTarget (size : Nat) : WordTarget size := ⟨.signed size, Command.name⟩

end CommandWord
