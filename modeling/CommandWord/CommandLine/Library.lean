import CommandWord.Header.Length

/-!
What a run takes from libraries that read text: the arguments that a command line means, and the
registry that the text of a file means. A command line can also ask for help or for the version,
or make no sense; the library then has a text for it, and there is nothing to compile.
-/

namespace CommandWord

inductive Language where
  | rust
  | java
  deriving DecidableEq

structure Arguments where
  registry : Option String
  random : Option Nat
  bits : Option Nat
  seed : Option UInt64
  mask : Option UInt64
  uniformHeaders : Bool
  target : Language
  javaPackage : String
  javaClass : String
  out : Option String
  printConfig : Bool
  noReport : Bool
  verbose : Nat
  deriving DecidableEq

inductive UsageError where
  | valueValidation (message : Option String)
  | invalidValue
  | argumentConflict
  | unknownArgument
  | tooManyValues
  deriving DecidableEq

inductive Stop where
  | help
  | version
  | usage (cause : UsageError)
  deriving DecidableEq

structure RegistryFile where
  totalBits : Nat
  layout : Layout
  commands : List Command
  deriving DecidableEq

class Readers where
  parseArguments : List String → Except Stop Arguments
  stopText : Stop → String
  /-- The registry, or what the library says about a text that describes none. -/
  parseRegistry : String → Except String RegistryFile

end CommandWord
