import CommandWord.CommandLine.Library
import CommandWord.Sample
import CommandWord.Toml.Document

/-!
Registry files. The file states the word width, the header layout and the commands, all of them
optional; a key with another name is refused, so a misspelled one is noticed. Commands may carry
further keys, which mean nothing here. A command can also be written as an array that begins
with its name and its fields, and a layout as a table whose only key is its name.
-/

namespace CommandWord

namespace RegistryFile

open Toml

def width? : Value → Option Nat
  | .integer n => if 0 ≤ n ∧ n < UInt32.size then some n.toNat else none
  | _ => none

def text? : Value → Option String
  | .text content => some content
  | _ => none

def items? : Value → Option (List Value)
  | .array items => some items
  | .tables elements => some elements
  | _ => none

def widths? (value : Value) : Option (List Nat) := do
  (← items? value).mapM width?

def layout? : Value → Option Layout
  | .text name => Layout.ofName? name
  | .table _ [(name, .table _ [])] => Layout.ofName? name
  | .table _ [(name, .array [])] => Layout.ofName? name
  | _ => none

def commandOf? (name : Value) (fields : Option Value) : Option Command := do
  let name ← text? name
  let fields ← (fields.map widths?).getD (some [])
  return ⟨name, fields⟩

/-- A command as a table or as an array. The whole table is looked at, but of an array only the
name and the fields. -/
def command? : Value → Option Command
  | .table _ entries =>
      if areEntriesReadable entries then do
        commandOf? (← entries.lookup "name") (entries.lookup "fields")
      else none
  | .array (name :: rest) => commandOf? name rest.head?
  | _ => none

def addEntry (file : RegistryFile) (key : String) (value : Value) : Option RegistryFile :=
  if key = "total_bits" then
    (width? value).map fun totalBits => ⟨totalBits, file.layout, file.commands⟩
  else if key = "header_layout" then
    (layout? value).map fun layout => ⟨file.totalBits, layout, file.commands⟩
  else if key = "command" then do
    let commands ← (← items? value).mapM command?
    return ⟨file.totalBits, file.layout, commands⟩
  else none

def parse? (text : String) : Option RegistryFile := do
  let entries ← document? text
  entries.foldlM (fun file (key, value) => file.addEntry key value)
    ⟨Sample.totalBits, .perCommand, []⟩

end RegistryFile

end CommandWord
