import CommandWord.Header.Length
import CommandWord.Header.Allocation
import CommandWord.Mask

/-!
A compiled codec: a registry, its headers and a mask. A codec exists only as the outcome of a
compilation, so its headers are the ones allocated to its registry and its mask fits its word.
Compilation goes through the registry, the header lengths, the header codes and the mask, and
stops at the first error.
-/

namespace CommandWord

namespace Registry

def compileHeaders (registry : Registry) (layout : Layout) :
    Except ConfigurationError (List Header) := do
  let lengths ← registry.headerLengths layout
  registry.allocateHeaders lengths

end Registry

structure Codec where
  registry : Registry
  layout : Layout
  headers : List Header
  mask : UInt64
  compiled : registry.compileHeaders layout = .ok headers
  mask_fits : Fits mask registry.totalBits

structure Entry where
  id : Nat
  command : Command
  header : Header
  deriving DecidableEq

namespace Codec

def build [Randomness] (totalBits : Nat) (commands : List Command) (layout : Layout)
    (source : MaskSource) :
    Except ConfigurationError Codec :=
  match Registry.ofCommands totalBits commands with
  | .error cause => .error cause
  | .ok registry =>
    match hheaders : registry.compileHeaders layout with
    | .error cause => .error cause
    | .ok headers =>
      match hmask : source.draw registry.totalBits with
      | .error cause => .error cause
      | .ok mask =>
        .ok ⟨registry, layout, headers, mask, hheaders, MaskSource.fits_of_draw hmask⟩

def totalBits (codec : Codec) : Nat := codec.registry.totalBits

/-- The value that means no message. It is the mask itself, and no message encodes to it. -/
def sentinel (codec : Codec) : UInt64 := codec.mask

def entries (codec : Codec) : List Entry :=
  (codec.registry.commands.zip codec.headers).zipIdx.map
    fun ((command, header), id) => ⟨id, command, header⟩

def entry? (codec : Codec) (id : Nat) : Option Entry := codec.entries[id]?

/-- The order in which a received value is held against the headers: shorter headers first,
equal lengths in registry order. -/
def decodeOrder (codec : Codec) : List Entry :=
  codec.entries.mergeSort fun first second =>
    first.header.length < second.header.length ∨
      first.header.length = second.header.length ∧ first.id ≤ second.id

def headerClasses (codec : Codec) : List (List Entry) :=
  codec.decodeOrder.splitBy fun first second => first.header.length == second.header.length

end Codec

end CommandWord
