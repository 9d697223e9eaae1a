import CommandWord.Text

/-!
What can go wrong, by cause. A configuration error stops a compilation, so no codec exists; a
field error is the fault of the values handed to `encode`; a bit error says that a word has no
room; a mismatch says that a received value carries no message of this codec. The wording of
each cause is a function of it.
-/

namespace CommandWord

open Digits Quoted

inductive ConfigurationError where
  | emptyRegistry
  | invalidTotalBits (totalBits : Nat)
  | invalidName (name : String)
  | duplicateCommand (name : String)
  | payloadExceedsBudget (command : String) (payloadBits totalBits : Nat)
  | codeSpaceExhausted (command : String) (headerLength : Nat)
  | headerCollision (first second : String)
  | maskOutOfRange (mask : UInt64) (totalBits : Nat)
  | unsupportedTarget (target : String) (totalBits : Nat)
  deriving DecidableEq

inductive FieldError where
  | outOfRange (command : String) (field : Nat) (value : UInt64) (width : Nat)
  | wrongArity (command : String) (expected actual : Nat)
  deriving DecidableEq

inductive BitError where
  | valueTooWide (value : UInt64) (width : Nat)
  | insufficientBits (requested available : Nat)
  deriving DecidableEq

inductive Error where
  | configuration (cause : ConfigurationError)
  | field (cause : FieldError)
  | bits (cause : BitError)
  | decodeMismatch (value : UInt64)
  | unknownCommand (name : String)
  deriving DecidableEq

namespace ConfigurationError

def message : ConfigurationError → String
  | emptyRegistry => "registry is empty"
  | invalidTotalBits totalBits =>
      s!"total bits {totalBits} outside supported range 1..=64"
  | invalidName name => s!"command name {quote name} is not a valid identifier"
  | duplicateCommand name => s!"duplicate command name {quote name}"
  | payloadExceedsBudget command payloadBits totalBits =>
      s!"command {command} needs {payloadBits} payload bits, budget is {totalBits}"
  | codeSpaceExhausted command headerLength =>
      s!"header code space exhausted at command {command} (header length {headerLength})"
  | headerCollision first second => s!"header collision between {first} and {second}"
  | maskOutOfRange mask totalBits =>
      s!"mask {hex mask.toNat} does not fit in {totalBits} bits"
  | unsupportedTarget target totalBits =>
      s!"target {target} cannot represent {totalBits}-bit values"

end ConfigurationError

namespace FieldError

def message : FieldError → String
  | outOfRange command field value width =>
      s!"{command} field {field}: value {value} does not fit in {width} bits"
  | wrongArity command expected actual => s!"{command} takes {expected} fields, got {actual}"

end FieldError

namespace BitError

def message : BitError → String
  | valueTooWide value width => s!"value {hex value.toNat} wider than {width} bits"
  | insufficientBits requested available =>
      s!"insufficient bits: requested {requested}, available {available}"

end BitError

namespace Error

def message : Error → String
  | configuration cause => "configuration error: " ++ cause.message
  | field cause => "field range error: " ++ cause.message
  | bits cause => "bit I/O error: " ++ cause.message
  | decodeMismatch value => s!"decode mismatch: {hex value.toNat} matches no command header"
  | unknownCommand name => s!"unknown command: {name}"

end Error

end CommandWord
