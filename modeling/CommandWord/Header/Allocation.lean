import CommandWord.Header.Collision

/-!
Header allocation. The commands are numbered from zero in ascending order of header length,
equal lengths in registry order, and a number becomes the code that mirrors it over as many bits
as the shortest header has. Codes of longer headers therefore have zeros above that length, and
two codes always differ within it.
-/

namespace CommandWord

namespace Header

structure Request where
  id : Nat
  command : Command
  length : Nat
  deriving DecidableEq

def Request.ofCommands (commands : List Command) (lengths : List Nat) : List Request :=
  (commands.zip lengths).zipIdx.map fun ((command, length), id) => ⟨id, command, length⟩

/-- The number that was given last and the bits that numbers are mirrored over. -/
structure Counter where
  last : Int
  width : Nat

namespace Counter

/-- One number on, for a header of some length. A length below the width narrows the counter
first, which costs the number its low bits. -/
def advance (counter : Counter) (length : Nat) : Counter :=
  if length < counter.width then ⟨(counter.last >>> (counter.width - length)) + 1, length⟩
  else ⟨counter.last + 1, counter.width⟩

def code (counter : Counter) : UInt64 :=
  reverseBits (UInt64.ofInt counter.last) counter.width

end Counter

def assign (counter : Counter) :
    List Request → Except ConfigurationError (List (Request × Header))
  | [] => .ok []
  | request :: rest =>
      let next := counter.advance request.length
      if Int.ofNat (1 <<< next.width) ≤ next.last ∨ next.code = lowMask request.length then
        .error (.codeSpaceExhausted request.command.name request.length)
      else
        (assign next rest).map ((request, ⟨next.code, request.length⟩) :: ·)

def put (table : List Header) (row : Request × Header) : List Header :=
  table.set row.1.id row.2

def arrange (size : Nat) (rows : List (Request × Header)) : List Header :=
  rows.foldl put (List.replicate size ⟨0, 0⟩)

end Header

open Header

namespace Registry

/-- The commands in the order in which they are numbered. The sort is stable, so equal lengths
stay in registry order. -/
def numbering (registry : Registry) (lengths : List Nat) : List Request :=
  (Request.ofCommands registry.commands lengths).mergeSort fun first second =>
    first.length ≤ second.length

def allocateHeaders (registry : Registry) (lengths : List Nat) :
    Except ConfigurationError (List Header) := do
  let numbered := registry.numbering lengths
  let rows ← assign ⟨-1, numbered.head?.elim 0 Request.length⟩ numbered
  let headers := arrange lengths.length rows
  registry.checkHeaders headers
  return headers

end Registry

end CommandWord
