import CommandWord.CommandLine.Configuration
import CommandWord.Report

/-!
The program, step by step. It reads at most one file, computes the codec and its source, and only
then puts anything out: the source goes to the output unless a file is named for it, and the report
goes to the output if the source does not. What fails ends the run with its text among the
diagnostics.
-/

namespace CommandWord

structure System (m : Type → Type) where
  readFile : String → m (Except FileError ByteArray)
  writeFile : (path text : String) → m (Except FileError Unit)
  print : String → m Unit
  printError : String → m Unit

section

variable {m : Type → Type} [Monad m] [Readers] [Randomness] (system : System m)

namespace Configuration

def announce (configuration : Configuration) : ExceptT Failure m Unit :=
  if configuration.printConfig then system.printError configuration.text else return ()

def deliver (configuration : Configuration) (source : String) : ExceptT Failure m Unit :=
  match configuration.out with
  | none => system.print source
  | some path => do
      match ← system.writeFile path source with
      | .error reason => throw (.unwritable path reason)
      | .ok () => return ()

def report (configuration : Configuration) (codec : Codec) : ExceptT Failure m Unit :=
  if configuration.printReport then
    if configuration.out.isSome then system.print (Report.ofCodec codec).summary
    else system.printError (Report.ofCodec codec).summary
  else
    return ()

def perform (configuration : Configuration) : ExceptT Failure m Unit := do
  configuration.announce system
  let (codec, source) ← MonadExcept.ofExcept configuration.compile
  configuration.deliver system source
  configuration.report system codec

end Configuration

def Stop.answer (stop : Stop) : m Nat := do
  match stop with
  | .help | .version =>
      system.print (Readers.stopText stop)
      return 0
  | .usage _ =>
      system.printError (Readers.stopText stop)
      return 2

def program (entropy : Entropy) (line : List String) : m Nat := do
  match Readers.parseArguments line with
  | .error stop => stop.answer system
  | .ok arguments =>
      let ending ← (Configuration.load system.readFile entropy arguments >>=
        fun configuration => configuration.perform system).run
      match ending with
      | .ok () => return 0
      | .error failure =>
          system.printError failure.text
          return 1

end

/-- What a run can change: the file system and the two texts that are put out. `written` are the
files that were written so far, with their texts. -/
structure World where
  directory : Directory
  output : String
  diagnostics : String
  written : List (String × String)

namespace World

def print (world : World) (text : String) : World :=
  { world with output := world.output ++ text }

def printError (world : World) (text : String) : World :=
  { world with diagnostics := world.diagnostics ++ text }

def put (world : World) (path text : String) : World :=
  match world.directory.system (Path.ofString path).place with
  | some (.device _ .nowhere) => world
  | some (.device _ .output) => world.print text
  | some (.device _ .diagnostics) => world.printError text
  | _ =>
      { world with
        directory := { world.directory with system := world.directory.system.write path text }
        written := world.written ++ [(path, text)] }

def system : System (StateM World) where
  readFile path := fun world => (world.directory.read path, world)
  writeFile path text := fun world =>
    match world.directory.refusal path with
    | some reason => (.error reason, world)
    | none => (.ok (), world.put path text)
  print text := fun world => ((), world.print text)
  printError text := fun world => ((), world.printError text)

def run [Readers] [Randomness] (world : World) (entropy : Entropy) (line : List String) :
    Nat × World :=
  (program system entropy line).run world

end World

end CommandWord
