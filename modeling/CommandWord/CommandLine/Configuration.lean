import CommandWord.CommandLine.Directory
import CommandWord.CommandLine.Library
import CommandWord.Sample
import CommandWord.Source.Target

/-!
The configuration of one run: which registry, with which mask, written out how. It follows from
the arguments, the registry file if one is named, and two words of entropy for what the
arguments leave open.
-/

namespace CommandWord

structure Entropy where
  seed : UInt64
  mask : UInt64

inductive Failure where
  | unreadable (path : String) (reason : FileError)
  | malformed (path reason : String)
  | noCommands
  | compilation (source : String) (cause : ConfigurationError)
  | emission (target : Target) (cause : ConfigurationError)
  | unwritable (path : String) (reason : FileError)
  deriving DecidableEq

namespace Failure

/-- The text of a failure, and those of its causes down to the first one. An error of the
compiler shows with its family in front and then alone. -/
def chain : Failure → List String
  | unreadable path reason => [s!"failed to read registry {path}", reason.message]
  | malformed path reason => [s!"in {path}", "invalid registry file", reason]
  | noCommands => ["--random needs at least one command"]
  | compilation source cause =>
      [s!"failed to compile registry {source}", (Error.configuration cause).message, cause.message]
  | emission target cause =>
      [s!"failed to emit {target.name} source", (Error.configuration cause).message, cause.message]
  | unwritable path reason => [s!"failed to write {path}", reason.message]

def causeLines : List String → List String
  | [] => []
  | [cause] => ["", "Caused by:", "    " ++ cause]
  | causes =>
      "" :: "Caused by:" :: causes.zipIdx.map fun (cause, number) => s!"    {number}: {cause}"

def text (failure : Failure) : String :=
  match failure.chain with
  | [] => ""
  | first :: causes => Lines.unlines (("Error: " ++ first) :: causeLines causes)

end Failure

structure Configuration where
  source : String
  totalBits : Nat
  layout : Layout
  commands : List Command
  mask : MaskSource
  target : Target
  out : Option String
  printConfig : Bool
  printReport : Bool
  deriving DecidableEq

namespace Configuration

section

variable {m : Type → Type} [Monad m] [Readers] (read : String → m (Except FileError ByteArray))

def readRegistry (path : String) : ExceptT Failure m RegistryFile := do
  match ← read path with
  | .error reason => throw (.unreadable path reason)
  | .ok bytes =>
      match String.fromUTF8? bytes with
      | none => throw (.unreadable path .notText)
      | some text =>
          match Readers.parseRegistry text with
          | .error reason => throw (.malformed path reason)
          | .ok file => return file

variable [Randomness]

def registryOf (entropy : Entropy) (arguments : Arguments) :
    ExceptT Failure m (String × RegistryFile) :=
  match arguments.registry, arguments.random with
  | some path, _ => do
      let file ← readRegistry read path
      return (path, file)
  | none, some count =>
      if count = 0 then throw .noCommands
      else
        let totalBits := arguments.bits.getD Sample.totalBits
        let seed := arguments.seed.getD entropy.seed
        return (s!"random ({count} commands, seed {seed})",
          ⟨totalBits, .perCommand, Sample.random seed totalBits count⟩)
  | none, none => return ("built-in sample", ⟨Sample.totalBits, .perCommand, Sample.commands⟩)

def maskOf (entropy : Entropy) (arguments : Arguments) : MaskSource :=
  match arguments.mask, arguments.seed with
  | some mask, _ => .fixed mask
  | none, some seed => .seed seed
  | none, none => .entropy entropy.mask

def targetOf (arguments : Arguments) : Target :=
  match arguments.target with
  | .rust => .rust
  | .java => .java arguments.javaPackage arguments.javaClass

def load (entropy : Entropy) (arguments : Arguments) : ExceptT Failure m Configuration := do
  let (source, file) ← registryOf read entropy arguments
  return {
    source := source
    totalBits := arguments.bits.getD file.totalBits
    layout := if arguments.uniformHeaders then .uniform else file.layout
    commands := file.commands
    mask := maskOf entropy arguments
    target := targetOf arguments
    out := arguments.out
    printConfig := arguments.printConfig
    printReport := !arguments.noReport }

def resolve (directory : Directory) (entropy : Entropy) (arguments : Arguments) :
    Except Failure Configuration :=
  Id.run (load (fun path => pure (directory.read path)) entropy arguments).run

end

def build [Randomness] (configuration : Configuration) : Except ConfigurationError Codec :=
  Codec.build configuration.totalBits configuration.commands configuration.layout
    configuration.mask

def compile [Randomness] (configuration : Configuration) : Except Failure (Codec × String) :=
  match configuration.build with
  | .error cause => .error (.compilation configuration.source cause)
  | .ok codec =>
      match codec.emit configuration.target with
      | .error cause => .error (.emission configuration.target cause)
      | .ok source => .ok (codec, source)

def maskLine : MaskSource → String
  | .entropy _ => "Source: OS entropy"
  | .seed start => s!"Source: seed {start}"
  | .fixed _ => "Source: fixed"

def targetLine : Target → String
  | .rust => "Target: rust"
  | .java package className =>
      if package = "" then s!"Target: java ({className})"
      else s!"Target: java ({package}.{className})"

/-- The configuration for people. A mask given outright is not shown. -/
def text (configuration : Configuration) : String :=
  Lines.unlines [
    "=== Configuration ===",
    s!"Registry: {configuration.source}",
    s!"Commands: {configuration.commands.length}",
    s!"Total bits: {configuration.totalBits}",
    s!"Header layout: {configuration.layout.name}",
    "",
    "=== Mask ===",
    maskLine configuration.mask,
    "",
    "=== Output ===",
    targetLine configuration.target,
    "Output: " ++ configuration.out.getD "(stdout)",
    ""]

end Configuration

end CommandWord
