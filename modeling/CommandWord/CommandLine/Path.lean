/-!
Paths, and the places that they lead to. A path is followed from the root if it begins with a
slash and from the working directory if not. What encloses the working directory is not known
beyond its being a directory, so a place counts the names below one of three bases.
-/

namespace CommandWord

abbrev FileName := List Char

namespace FileName

/-- The longest name and the longest path that a file system takes, in bytes of UTF-8. -/
def longest : Nat := 255

def longestPath : Nat := 4095

def byteSize (name : FileName) : Nat := (String.ofList name).utf8ByteSize

def here : FileName := ['.']

def enclosing : FileName := ['.', '.']

def IsStep (name : FileName) : Prop := name = here ∨ name = enclosing

instance (name : FileName) : Decidable name.IsStep := inferInstanceAs (Decidable (_ ∨ _))

end FileName

inductive Base where
  | working
  | enclosing
  | root
  deriving DecidableEq

def Base.outer : Base → Base
  | working => enclosing
  | enclosing => enclosing
  | root => root

structure Place where
  base : Base
  names : List FileName
  deriving DecidableEq

def Place.step (place : Place) (name : FileName) : Place :=
  if name = FileName.here then place
  else if name = FileName.enclosing then
    if place.names = [] then ⟨place.base.outer, []⟩ else ⟨place.base, place.names.dropLast⟩
  else ⟨place.base, place.names ++ [name]⟩

structure Path where
  start : Base
  names : List FileName
  endsInSlash : Bool
  deriving DecidableEq

namespace Path

/-- Slashes that stand side by side count as one. -/
def ofString (path : String) : Path :=
  let text := path.toList
  ⟨if text.head? = some '/' then .root else .working,
    (text.splitOn '/').filter (· ≠ []),
    text.getLast? = some '/'⟩

def place (path : Path) : Place := path.names.foldl Place.step ⟨path.start, []⟩

end Path

end CommandWord
