import CommandWord.Codec
import CommandWord.Bits.Writer

/-!
Encoding a message. The field values are packed above the header code, one is added so that the
sum is never zero, and the result is combined with the mask. Values are refused, never cut.
-/

namespace CommandWord

structure Message where
  id : Nat
  fields : List UInt64
  deriving DecidableEq

namespace Command

def packFrom (command : Command) (writer : BitWriter) (field : Nat) :
    List (Nat × UInt64) → Except Error BitWriter
  | [] => .ok writer
  | (width, value) :: rest =>
      match writer.write value width with
      | .ok next => packFrom command next (field + 1) rest
      | .error (.valueTooWide _ _) =>
          .error (.field (.outOfRange command.name field value width))
      | .error cause => .error (.bits cause)

def pack (command : Command) (values : List UInt64) : Except Error UInt64 :=
  if values.length ≠ command.fields.length then
    .error (.field (.wrongArity command.name command.fields.length values.length))
  else
    (packFrom command .empty 0 (command.fields.zip values)).map BitWriter.word

end Command

namespace Header

/-- The raw value with the payload above the code. A header that fills the word leaves none. -/
def place (header : Header) (payload : UInt64) : UInt64 :=
  (if 64 ≤ header.length then 0 else payload <<< header.length.toUInt64) ||| header.code

end Header

namespace Codec

def wrap (codec : Codec) (raw : UInt64) : UInt64 := (raw + 1) ^^^ codec.mask

def rawValue (codec : Codec) (message : Message) : Except Error UInt64 :=
  match codec.entry? message.id with
  | none => .error (.unknownCommand ("#" ++ toString message.id))
  | some entry => (entry.command.pack message.fields).map entry.header.place

def encode (codec : Codec) (message : Message) : Except Error UInt64 :=
  (codec.rawValue message).map codec.wrap

def encodeNamed (codec : Codec) (name : String) (fields : List UInt64) : Except Error UInt64 :=
  match codec.registry.find? name with
  | none => .error (.unknownCommand name)
  | some id => codec.encode ⟨id, fields⟩

end Codec

end CommandWord
