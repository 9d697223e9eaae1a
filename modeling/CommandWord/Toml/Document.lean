import CommandWord.Toml.Statement

/-!
The table that a TOML document describes. A header opens a section, and the assignments up to
the next header go into it. A table has one header at most; a table that was so far only implied
keeps what is in it when its header comes.
-/

namespace CommandWord.Toml

inductive Section where
  | top
  | table (key : DottedKey)
  | element (key : DottedKey)

structure Draft where
  closed : Entries
  opened : Section
  entries : Entries

namespace Draft

def empty : Draft := ⟨[], .top, []⟩

def close (draft : Draft) : Option Entries :=
  match draft.opened with
  | .top => some draft.entries
  | .table key =>
      Entries.modify
        (fun entries => some (Entries.put entries key.last (.table .stated draft.entries)))
        key.path draft.closed
  | .element key =>
      let element := Value.table .stated draft.entries
      Entries.modify
        (fun entries => match Entries.get? entries key.last with
          | some (.tables elements) =>
              some (Entries.put entries key.last (.tables (elements ++ [element])))
          | _ => some (Entries.put entries key.last (.tables [element])))
        key.path draft.closed

/-- What a header finds in its place: nothing, or a table that was only implied. -/
def openTable (closed : Entries) (key : DottedKey) : Option Draft :=
  match Entries.slot? key.path key.last closed with
  | some none => some ⟨closed, .table key, []⟩
  | some (some (.table .implied entries)) => some ⟨closed, .table key, entries⟩
  | _ => none

def openElement (closed : Entries) (key : DottedKey) : Option Draft :=
  match Entries.slot? key.path key.last closed with
  | some none => some ⟨closed, .element key, []⟩
  | some (some (.tables _)) => some ⟨closed, .element key, []⟩
  | _ => none

def state (draft : Draft) : Statement → Option Draft
  | .table key => draft.close.bind fun closed => openTable closed key
  | .element key => draft.close.bind fun closed => openElement closed key
  | .assign key value =>
      (Entries.assign key.path key.last value draft.entries).map fun entries =>
        ⟨draft.closed, draft.opened, entries⟩

end Draft

def document? (text : String) : Option Entries := do
  let statements ← statements text
  let draft ← statements.foldlM Draft.state .empty
  draft.close

end CommandWord.Toml
