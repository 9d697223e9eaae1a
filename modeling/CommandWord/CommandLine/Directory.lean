import CommandWord.CommandLine.Path

/-!
The file system as a run sees it: what stands at each place, which paths lead to a text, and which
ones can be written to. A path is followed name by name, and the first step that does not lead
through a directory is the reason for a refusal. A device takes every text and stays as it is;
what is written to one can turn up among what the run puts out.
-/

namespace CommandWord

inductive FileError where
  | notFound
  | notDirectory
  | isDirectory
  | nameTooLong
  | zeroInPath
  | notText
  | other (message : String)
  deriving DecidableEq

namespace FileError

def message : FileError → String
  | notFound => "No such file or directory (os error 2)"
  | notDirectory => "Not a directory (os error 20)"
  | isDirectory => "Is a directory (os error 21)"
  | nameTooLong => "File name too long (os error 36)"
  | zeroInPath => "file name contained an unexpected NUL byte"
  | notText => "stream did not contain valid UTF-8"
  | other message => message

end FileError

inductive Sink where
  | nowhere
  | output
  | diagnostics
  deriving DecidableEq

inductive Node where
  | file (bytes : ByteArray)
  | directory
  | device (gives : ByteArray) (sink : Sink)

abbrev FileSystem := Place → Option Node

namespace FileSystem

def step (system : FileSystem) (place : Place) (name : FileName) : Except FileError Place :=
  match system place with
  | none => .error .notFound
  | some .directory =>
      if name.byteSize ≤ FileName.longest then .ok (place.step name) else .error .nameTooLong
  | some _ => .error .notDirectory

def follow (system : FileSystem) (start : Base) (names : List FileName) : Except FileError Place :=
  names.foldlM system.step ⟨start, []⟩

def path (text : String) : Except FileError Path :=
  if text.toList.contains '\x00' then .error .zeroInPath
  else if text = "" then .error .notFound
  else if FileName.longestPath < text.utf8ByteSize then .error .nameTooLong
  else .ok (.ofString text)

/-- The contents of the file that a path leads to. Behind a slash at the end, the path goes on
to the place itself, so that place must be a directory. -/
def contents (system : FileSystem) (text : String) : Except FileError ByteArray := do
  let path ← FileSystem.path text
  let tail := if path.endsInSlash then [FileName.here] else []
  let place ← system.follow path.start (path.names ++ tail)
  match system place with
  | none => .error .notFound
  | some (.file bytes) => .ok bytes
  | some (.device gives _) => .ok gives
  | some .directory => .error .isDirectory

/-- Succeeds where a file can be written. The last name need not be there, but the directory
around it must be; a path that can only mean a directory is refused even if nothing is there. -/
def writable (system : FileSystem) (text : String) : Except FileError Unit := do
  let path ← FileSystem.path text
  let around ← system.follow path.start path.names.dropLast
  match path.names.getLast? with
  | none => .error .isDirectory
  | some name =>
      let meansDirectory := path.endsInSlash || decide name.IsStep
      let place ← system.step around (if meansDirectory then FileName.here else name)
      if meansDirectory then .error .isDirectory
      else match system place with
      | some .directory => .error .isDirectory
      | _ => .ok ()

def write (system : FileSystem) (path text : String) : FileSystem := fun place =>
  if place = (Path.ofString path).place then
    match system place with
    | some (.device gives sink) => some (.device gives sink)
    | _ => some (.file text.toUTF8)
  else system place

end FileSystem

abbrev FileList := List (String × ByteArray)

namespace FileList

/-- What stands outside of the working directory in every system: a few directories, and the
devices that every process has. -/
def outside : List (List String × Node) :=
  [([], .directory), (["tmp"], .directory), (["dev"], .directory),
    (["dev", "null"], .device .empty .nowhere), (["dev", "stdout"], .device .empty .output),
    (["dev", "stderr"], .device .empty .diagnostics)]

def isBelow (outer inner : List FileName) : Bool := outer.isPrefixOf inner && outer ≠ inner

def system (files : FileList) : FileSystem := fun place =>
  match place.base with
  | .root =>
      (outside.find? fun entry => entry.1.map String.toList = place.names).map fun entry => entry.2
  | .enclosing => if place.names = [] then some .directory else none
  | .working =>
      let namesOf (file : String × ByteArray) := (Path.ofString file.1).place.names
      match files.find? fun file => namesOf file = place.names with
      | some file => some (.file file.2)
      | none =>
          if place.names = [] ∨ files.any fun file => isBelow place.names (namesOf file) then
            some .directory
          else none

end FileList

structure Directory where
  system : FileSystem
  unread : String → Option FileError
  unwritten : String → Option FileError

namespace Directory

def ofFiles (files : FileList) : Directory :=
  ⟨files.system, fun _ => none, fun _ => none⟩

def read (directory : Directory) (path : String) : Except FileError ByteArray :=
  match directory.unread path with
  | some reason => .error reason
  | none => directory.system.contents path

def readText (directory : Directory) (path : String) : Except FileError String :=
  match directory.read path with
  | .error reason => .error reason
  | .ok bytes =>
      match String.fromUTF8? bytes with
      | some text => .ok text
      | none => .error .notText

def refusal (directory : Directory) (path : String) : Option FileError :=
  match directory.unwritten path, directory.system.writable path with
  | some reason, _ => some reason
  | none, .error reason => some reason
  | none, .ok () => none

def entryName? (path : String) : Option String :=
  let place := (Path.ofString path).place
  if place.base = .working then some (String.ofList (List.intercalate ['/'] place.names)) else none

/-- The entry that a text written to a path creates or changes. There is none if the same text
stands there already. -/
def change? (directory : Directory) (path text : String) : Option (String × String) :=
  match directory.readText path with
  | .ok held => if held = text then none else (entryName? path).map fun name => (name, text)
  | .error _ => (entryName? path).map fun name => (name, text)

end Directory

end CommandWord
