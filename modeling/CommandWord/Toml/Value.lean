/-!
Values of a TOML document. A table remembers how it came to be, because that decides who may
add to it: one stated by a header or written inline is closed to everything but its own lines,
one implied by a longer header may still get its own header or be extended by dotted keys, and
one made or extended by dotted keys takes further dotted keys and no header.
-/

namespace CommandWord.Toml

inductive Origin where
  | stated
  | implied
  | dotted
  | inline
  deriving DecidableEq

/-- Of a number with a fraction, a truth value, and a date or time it is enough to know that they
are there. What is `unreadable` is spelled like a number and has no value. An array written as a
value is complete; `tables` is the kind of array that headers append to. -/
inductive Value where
  | text (content : String)
  | integer (n : Int)
  | float
  | boolean
  | moment
  | unreadable
  | array (items : List Value)
  | tables (elements : List Value)
  | table (origin : Origin) (entries : List (String × Value))

abbrev Entries := List (String × Value)

mutual

def Value.isReadable : Value → Bool
  | .unreadable => false
  | .array items => areReadable items
  | .tables elements => areReadable elements
  | .table _ entries => areEntriesReadable entries
  | _ => true

def areReadable : List Value → Bool
  | [] => true
  | first :: rest => first.isReadable && areReadable rest

def areEntriesReadable : List (String × Value) → Bool
  | [] => true
  | (_, value) :: rest => value.isReadable && areEntriesReadable rest

end

namespace Entries

def get? (entries : Entries) (key : String) : Option Value :=
  entries.lookup key

def put (entries : Entries) (key : String) (value : Value) : Entries :=
  if (entries.get? key).isSome then
    entries.map fun entry => if entry.1 = key then (key, value) else entry
  else
    entries ++ [(key, value)]

/-- Put a value under a dotted key whose last part is `key`. The tables before it are new, or
were made by dotted keys as well, or were only implied and count as made by dotted keys from now
on. Of an array of tables the last one is meant, but it cannot be the table of the value. -/
def assign : (path : List String) → (key : String) → Value → Entries → Option Entries
  | [], key, value, entries =>
      if (entries.get? key).isSome then none else some (entries.put key value)
  | step :: path, key, value, entries =>
      match entries.get? step with
      | none => do
          let inner ← assign path key value []
          return entries.put step (.table .dotted inner)
      | some (.table origin inner) =>
          if origin = .dotted ∨ origin = .implied then do
            let inner ← assign path key value inner
            return entries.put step (.table .dotted inner)
          else none
      | some (.tables elements) =>
          match elements.getLast?, path with
          | some (.table origin inner), _ :: _ => do
              let inner ← assign path key value inner
              return entries.put step (.tables (elements.dropLast ++ [.table origin inner]))
          | _, _ => none
      | some _ => none

def modify (change : Entries → Option Entries) : (path : List String) → Entries → Option Entries
  | [], entries => change entries
  | step :: path, entries =>
      match entries.get? step with
      | none => do
          let inner ← modify change path []
          return entries.put step (.table .implied inner)
      | some (.table .inline _) => none
      | some (.table origin inner) => do
          let inner ← modify change path inner
          return entries.put step (.table origin inner)
      | some (.tables elements) =>
          match elements.getLast? with
          | some (.table origin inner) => do
              let inner ← modify change path inner
              return entries.put step (.tables (elements.dropLast ++ [.table origin inner]))
          | _ => none
      | some _ => none

/-- The value at the end of a header's path, with `some none` for a place that is free and
`none` where the path cannot be followed. -/
def slot? : (path : List String) → (key : String) → Entries → Option (Option Value)
  | [], key, entries => some (entries.get? key)
  | step :: path, key, entries =>
      match entries.get? step with
      | none => some none
      | some (.table .inline _) => none
      | some (.table _ inner) => slot? path key inner
      | some (.tables elements) =>
          match elements.getLast? with
          | some (.table _ inner) => slot? path key inner
          | _ => none
      | some _ => none

end Entries

end CommandWord.Toml
