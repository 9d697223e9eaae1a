import CommandWord.CommandLine.Run

/-!
The program on the system that it runs on. It asks the system for two random words and leaves
everything else to `program`.
-/

namespace CommandWord

def fileErrorOf : IO.Error → FileError
  | .noFileOrDirectory _ _ _ => .notFound
  | .inappropriateType _ code _ =>
      if code = 20 then .notDirectory else if code = 21 then .isDirectory else .other "wrong type"
  | .invalidArgument _ code details => if code = 36 then .nameTooLong else .other details
  | cause => .other (toString cause)

def wordOf (bytes : List UInt8) : UInt64 :=
  bytes.foldr (fun byte word => word * 256 + byte.toUInt64) 0

def catchFileError {α : Type} (action : IO α) : IO (Except FileError α) := do
  try
    return .ok (← action)
  catch cause =>
    return .error (fileErrorOf cause)

def realSystem : System IO where
  readFile path := catchFileError (IO.FS.readBinFile path)
  writeFile path text := catchFileError (IO.FS.writeFile path text)
  print text := IO.print text
  printError text := IO.eprint text

end CommandWord

open CommandWord in
def main (line : List String) : IO UInt32 := do
  let random ← IO.getRandomBytes 16
  let entropy : Entropy := ⟨wordOf (random.toList.take 8), wordOf (random.toList.drop 8)⟩
  let exitCode ← program realSystem entropy line
  return exitCode.toUInt32
