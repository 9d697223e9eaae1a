import CommandWord.CommandLine.Arguments
import CommandWord.CommandLine.Program
import CommandWord.Random.Generator
import CommandWord.RegistryFile

/-!
A run of the program with the libraries that it is built with, as a function of its arguments, its
directory and its entropy.
-/

namespace CommandWord

structure Outcome where
  exitCode : Nat
  output : String
  diagnostics : String
  written : Option (String × String)
  deriving DecidableEq

namespace UsageError

def message : UsageError → String
  | valueValidation (some message) => message
  | valueValidation none => "a value is not a number in range"
  | invalidValue => "a value is missing or not one of the possible ones"
  | argumentConflict => "two arguments cannot be used together"
  | unknownArgument => "an argument is not known"
  | tooManyValues => "an argument takes no value"

end UsageError

namespace Stop

def helpText : String :=
  Lines.unlines [
    "Compile a command registry into a masked flag codec",
    "",
    "Usage: flagcodec [OPTIONS]",
    "",
    "Options:",
    "      --registry <PATH>      Registry file (TOML). Defaults to the built-in sample registry",
    "      --random <COUNT>       Compile a random registry with COUNT commands instead",
    "      --bits <N>             Override the registry's total bit budget",
    "      --seed <N>             Seed for the mask (and the random registry)",
    "      --mask <N>             Use this exact mask, decimal or 0x-prefixed hex",
    "      --uniform-headers      Give every command the shortest header length",
    "      --target <TARGET>      Output language [default: rust] [possible values: rust, java]",
    "      --java-package <NAME>  Java package for the generated class (empty for none)",
    "      --java-class <NAME>    Java class name [default: Communication]",
    "      --out <PATH>           Write generated source here instead of stdout",
    "      --print-config         Print resolved configuration",
    "      --no-report            Don't print the layout report",
    "  -v, --verbose...           More logging",
    "  -h, --help                 Print help",
    "  -V, --version              Print version"]

def text : Stop → String
  | help => helpText
  | version => Lines.unlines [RustText.generator]
  | usage cause => Lines.unlines ["error: " ++ cause.message]

end Stop

/-- The readers that the program is built with. -/
instance : Readers where
  parseArguments := Arguments.parse
  stopText := Stop.text
  parseRegistry text :=
    match RegistryFile.parse? text with
    | some file => .ok file
    | none => .error "the text does not describe a registry"

def run (directory : Directory) (entropy : Entropy) (line : List String) : Outcome :=
  let (exitCode, world) := World.run ⟨directory, "", "", []⟩ entropy line
  ⟨exitCode, world.output, world.diagnostics, world.written.getLast?⟩

end CommandWord
