import CommandWord.CommandLine.Library
import CommandWord.CommandLine.Number

/-!
The grammar of the command line. Long options carry their value behind an equals sign or in the
next argument, unless that one begins with a hyphen; an option may be given once, only `verbose`
more often. Arguments are read from the left and the first fault decides. The value of an option
that stands in an argument of its own is looked at when the next option comes, so an unknown
argument directly behind it is reported first.
-/

namespace CommandWord

inductive ValueOption where
  | registry
  | random
  | bits
  | seed
  | mask
  | target
  | javaPackage
  | javaClass
  | out
  deriving DecidableEq

inductive Switch where
  | uniformHeaders
  | printConfig
  | noReport
  | verbose
  | help
  | version
  deriving DecidableEq

namespace Arguments

def default : Arguments where
  registry := none
  random := none
  bits := none
  seed := none
  mask := none
  uniformHeaders := false
  target := .rust
  javaPackage := ""
  javaClass := "Communication"
  out := none
  printConfig := false
  noReport := false
  verbose := 0

def valueOptions : List (String × ValueOption) := [
  ("registry", .registry), ("random", .random), ("bits", .bits), ("seed", .seed),
  ("mask", .mask), ("target", .target), ("java-package", .javaPackage),
  ("java-class", .javaClass), ("out", .out)]

def switches : List (String × Switch) := [
  ("uniform-headers", .uniformHeaders), ("print-config", .printConfig),
  ("no-report", .noReport), ("verbose", .verbose), ("help", .help), ("version", .version)]

def letters : List (Char × Switch) := [('v', .verbose), ('h', .help), ('V', .version)]

def verbosityLimit : Nat := 255

/-- The reading of a command line up to some point. `pending` is the option whose value has not
been looked at, with the value if it has come. -/
structure Reading where
  arguments : Arguments
  values : List ValueOption
  switches : List Switch
  pending : Option (ValueOption × Option String)

abbrev Step := Except Stop Reading

def refuse {α : Type} (cause : UsageError) : Except Stop α := .error (.usage cause)

def number {α : Type} (value : Option α) : Except Stop α :=
  match value with
  | some n => .ok n
  | none => refuse (.valueValidation none)

def path (text : String) : Except Stop String :=
  if text = "" then refuse .invalidValue else .ok text

def language (text : String) : Except Stop Language :=
  if text = "rust" then .ok .rust
  else if text = "java" then .ok .java
  else refuse .invalidValue

def maskValue (text : String) : Except Stop UInt64 :=
  match Number.mask? text with
  | .ok mask => .ok mask
  | .error cause => refuse (.valueValidation (some (Number.maskMessage text cause)))

def setValue (arguments : Arguments) (text : String) : ValueOption → Except Stop Arguments
  | .registry => return { arguments with registry := some (← path text) }
  | .random => return { arguments with random := some (← number (Number.decimal? text).toOption) }
  | .bits => return { arguments with bits := some (← number (Number.width? text)) }
  | .seed => do
      let seed ← number (Number.decimal? text).toOption
      return { arguments with seed := some (UInt64.ofNat seed) }
  | .mask => return { arguments with mask := some (← maskValue text) }
  | .target => return { arguments with target := ← language text }
  | .javaPackage => return { arguments with javaPackage := text }
  | .javaClass => return { arguments with javaClass := text }
  | .out => return { arguments with out := some (← path text) }

def takeValue (reading : Reading) (option : ValueOption) : Option String → Step
  | none => refuse .invalidValue
  | some text =>
      if option ∈ reading.values then refuse .argumentConflict
      else do
        let arguments ← reading.arguments.setValue text option
        return ⟨arguments, option :: reading.values, reading.switches, none⟩

def settle (reading : Reading) : Step :=
  match reading.pending with
  | none => .ok reading
  | some (option, value) => takeValue reading option value

def setSwitch (arguments : Arguments) : Switch → Except Stop Arguments
  | .uniformHeaders => .ok { arguments with uniformHeaders := true }
  | .printConfig => .ok { arguments with printConfig := true }
  | .noReport => .ok { arguments with noReport := true }
  | .verbose => .ok { arguments with verbose := min (arguments.verbose + 1) verbosityLimit }
  | .help => .error .help
  | .version => .error .version

def takeSwitch (reading : Reading) (switch : Switch) : Step := do
  let reading ← settle reading
  if switch ∈ reading.switches ∧ switch ≠ .verbose then refuse .argumentConflict
  else
    let arguments ← reading.arguments.setSwitch switch
    return ⟨arguments, reading.values, switch :: reading.switches, none⟩

def takeLetters : List Char → Reading → Step
  | [], reading => .ok reading
  | c :: rest, reading =>
      match letters.lookup c with
      | none => refuse .unknownArgument
      | some switch => do takeLetters rest (← takeSwitch reading switch)

def takeLong (name : String) (value : Option String) (reading : Reading) : Step :=
  match valueOptions.lookup name, switches.lookup name, value with
  | some option, _, some text => do takeValue (← settle reading) option (some text)
  | some option, _, none => do
      let reading ← settle reading
      return ⟨reading.arguments, reading.values, reading.switches, some (option, none)⟩
  | none, some _, some _ => refuse .tooManyValues
  | none, some switch, none => takeSwitch reading switch
  | none, none, _ => refuse .unknownArgument

def takeWord (text : String) (reading : Reading) : Step :=
  match reading.pending with
  | some (option, none) =>
      .ok ⟨reading.arguments, reading.values, reading.switches, some (option, some text)⟩
  | _ => refuse .unknownArgument

def splitEquals (text : List Char) : String × Option String :=
  match text.span (· ≠ '=') with
  | (name, _ :: value) => (String.ofList name, some (String.ofList value))
  | (name, []) => (String.ofList name, none)

/-- Read the arguments one after the other. Behind two hyphens alone there are no options, and
there is nothing else to give. -/
def readAll : List String → Reading → Step
  | [], reading => settle reading
  | argument :: rest, reading =>
      match argument.toList with
      | ['-', '-'] => if rest = [] then settle reading else refuse .unknownArgument
      | '-' :: '-' :: text => do
          let (name, value) := splitEquals text
          readAll rest (← takeLong name value reading)
      | '-' :: c :: text => do readAll rest (← takeLetters (c :: text) reading)
      | _ => do readAll rest (← takeWord argument reading)

/-- Read a whole command line. A registry file excludes a random registry, and a mask a seed. -/
def parse (line : List String) : Except Stop Arguments := do
  let reading ← readAll line ⟨.default, [], [], none⟩
  let given := reading.values
  if .registry ∈ given ∧ .random ∈ given ∨ .mask ∈ given ∧ .seed ∈ given then
    refuse .argumentConflict
  else
    return reading.arguments

end Arguments

end CommandWord
