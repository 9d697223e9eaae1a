import CommandWord.Codec

/-!
The program that an emitted source spells, before it is spelled in any language: what its
encoder does for each command, and the tests its decoder makes in order. All numbers come from
the codec. A word of the target has at least as many bits as the codec's values.
-/

namespace CommandWord

structure Slot where
  index : Nat
  shift : Nat
  width : Nat
  deriving DecidableEq

namespace Entry

def slots (entry : Entry) : List Slot :=
  (entry.command.fields.zip entry.command.fieldOffsets).zipIdx.map
    fun ((width, offset), index) => ⟨index, entry.header.length + offset, width⟩

/-- The first bit above header and payload, if the word has one; from there on a raw value of
this command has only zeros. -/
def paddingStart (entry : Entry) (totalBits : Nat) : Option Nat :=
  let used := entry.header.length + entry.command.payloadBits
  if used < totalBits then some used else none

end Entry

inductive Term where
  | field (index shift : Nat)
  | literal (value : UInt64)
  deriving DecidableEq

structure EncodeArm where
  kind : String
  checks : List (Nat × Nat)
  terms : List Term
  deriving DecidableEq

inductive Extract where
  | zero
  | bits (shift : Nat) (mask : UInt64)
  deriving DecidableEq

structure DecodeArm where
  kind : String
  headerMask : UInt64
  code : UInt64
  padding : Option Nat
  fields : List Extract
  deriving DecidableEq

structure DecodeClass where
  headerLength : Nat
  arms : List DecodeArm
  deriving DecidableEq

structure Routine where
  totalBits : Nat
  mask : UInt64
  encoder : List EncodeArm
  decoder : List DecodeClass
  deriving DecidableEq

namespace Slot

def extract (slot : Slot) : Extract :=
  if slot.width = 0 then .zero else .bits slot.shift (lowMask slot.width)

end Slot

namespace EncodeArm

/-- Fields of no width contribute nothing. The code is left out when it is zero, unless nothing
else is there. -/
def ofEntry (kind : Command → String) (entry : Entry) : EncodeArm :=
  let wide := entry.slots.filter (0 < ·.width)
  let shifted := wide.map fun slot => Term.field slot.index slot.shift
  let code := if entry.header.code ≠ 0 ∨ shifted = [] then [Term.literal entry.header.code] else []
  ⟨kind entry.command, entry.slots.map fun slot => (slot.index, slot.width), shifted ++ code⟩

end EncodeArm

namespace DecodeArm

def ofEntry (kind : Command → String) (totalBits : Nat) (entry : Entry) : DecodeArm where
  kind := kind entry.command
  headerMask := lowMask entry.header.length
  code := entry.header.code
  padding := entry.paddingStart totalBits
  fields := entry.slots.map Slot.extract

end DecodeArm

namespace DecodeClass

def ofEntries (kind : Command → String) (totalBits : Nat) (entries : List Entry) : DecodeClass :=
  ⟨entries.head?.elim 0 (·.header.length), entries.map (DecodeArm.ofEntry kind totalBits)⟩

end DecodeClass

/-- What the lines of a source say, without the remarks among them. Where words are wider than
values, `cut` is what a raw value is cut with. -/
structure Program where
  totalBits : Nat
  mask : UInt64
  encoder : List EncodeArm
  cut : Option UInt64
  decoder : List DecodeArm
  deriving DecidableEq

namespace Routine

def ofCodec (codec : Codec) (kind : Command → String) : Routine where
  totalBits := codec.totalBits
  mask := codec.mask
  encoder := codec.entries.map (EncodeArm.ofEntry kind)
  decoder := codec.headerClasses.map (DecodeClass.ofEntries kind codec.totalBits)

def program (routine : Routine) (size : Nat) : Program where
  totalBits := routine.totalBits
  mask := routine.mask
  encoder := routine.encoder
  cut := if routine.totalBits < size then some (lowMask routine.totalBits) else none
  decoder := routine.decoder.flatMap DecodeClass.arms

end Routine

end CommandWord
