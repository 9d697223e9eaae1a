import CommandWord.Codec
import CommandWord.Proofs.Header.Lengths
import CommandWord.Proofs.Header.Table

/-!
What a compiled codec promises of its entries. Every command has exactly one entry, header and
payload of an entry fit the word side by side, the code of a header is usable, and a raw value
matches the header of at most one entry.
-/

namespace CommandWord

namespace Registry

variable {registry : Registry} {layout : Layout} {headers : List Header}

/-- The header lengths of a registry whose payloads all fit the word. -/
def lengths (registry : Registry) (layout : Layout) : List Nat :=
  registry.commands.map (layout.headerLength registry.totalBits registry.commands)

theorem length_lengths (registry : Registry) (layout : Layout) :
    (registry.lengths layout).length = registry.commands.length :=
  List.length_map _

theorem le_word_of_mem_lengths {length : Nat} (hmem : length ∈ registry.lengths layout) :
    length ≤ 64 := by
  obtain ⟨command, -, rfl⟩ := List.mem_map.mp hmem
  have hword := registry.valid.le_word
  cases layout <;> simp only [Layout.headerLength] <;> omega

theorem compileHeaders_of_sum_le (registry : Registry) (layout : Layout)
    (hbudget : ∀ command ∈ registry.commands, command.fields.sum ≤ registry.totalBits) :
    registry.compileHeaders layout =
      match registry.blockedRow? (registry.lengths layout) with
      | some row => .error (.codeSpaceExhausted row.1.command.name row.1.length)
      | none => .ok (registry.table (registry.lengths layout)) := by
  have hallocate := registry.allocateHeaders_eq (registry.length_lengths layout)
    fun length hmem => le_word_of_mem_lengths hmem
  refine Eq.trans ?_ hallocate
  rw [compileHeaders, headerLengths_of_sum_le layout hbudget]
  rfl

theorem compileHeaders_of_lt_sum (registry : Registry) (layout : Layout) {command : Command}
    (hmem : command ∈ registry.commands) (hover : registry.totalBits < command.fields.sum) :
    ∃ first : Command, registry.compileHeaders layout = .error
      (.payloadExceedsBudget first.name first.payloadBits registry.totalBits) := by
  obtain ⟨-, first, -, hlengths⟩ :=
    registry.headerLengths_of_overBudget layout ⟨command, hmem, hover⟩
  refine ⟨first, ?_⟩
  rw [compileHeaders, hlengths]
  rfl

theorem sum_le_of_compileHeaders (hcompiled : registry.compileHeaders layout = .ok headers) :
    ∀ command ∈ registry.commands, command.fields.sum ≤ registry.totalBits := by
  intro command hmem
  by_contra hover
  obtain ⟨first, herror⟩ := registry.compileHeaders_of_lt_sum layout hmem (Nat.lt_of_not_le hover)
  rw [herror] at hcompiled
  contradiction

/-- A compiled table has the lengths of the layout and is unambiguous. -/
theorem table_of_compileHeaders (hcompiled : registry.compileHeaders layout = .ok headers) :
    headers.map Header.length = registry.lengths layout ∧ Header.Unambiguous headers := by
  have hlengths := registry.length_lengths layout
  rw [registry.compileHeaders_of_sum_le layout (sum_le_of_compileHeaders hcompiled)] at hcompiled
  cases hblocked : registry.blockedRow? (registry.lengths layout) with
  | some row =>
    rw [hblocked] at hcompiled
    contradiction
  | none =>
    rw [hblocked] at hcompiled
    rw [← Except.ok.inj hcompiled]
    exact ⟨registry.map_length_table hlengths,
      registry.table_unambiguous hlengths (fun _ => le_word_of_mem_lengths) hblocked⟩

end Registry

/-- Header and payload fit the word side by side, and the header is usable. -/
structure Entry.Sound (entry : Entry) (totalBits : Nat) : Prop where
  room : entry.header.length + entry.command.fields.sum ≤ totalBits
  usable : entry.header.IsUsable

namespace Codec

variable {codec : Codec} {id : Nat} {entry : Entry}

theorem totalBits_le (codec : Codec) : codec.totalBits ≤ 64 := codec.registry.valid.le_word

theorem map_length_headers (codec : Codec) :
    codec.headers.map Header.length = codec.registry.lengths codec.layout :=
  (Registry.table_of_compileHeaders codec.compiled).1

theorem length_headers (codec : Codec) :
    codec.headers.length = codec.registry.commands.length := by
  simpa [Registry.length_lengths] using congrArg List.length codec.map_length_headers

/-- The entries are the commands and their headers side by side. -/
theorem map_row_entries (codec : Codec) :
    (codec.entries.map fun entry => (entry.command, entry.header)) =
      codec.registry.commands.zip codec.headers := by
  simp only [entries, List.map_map, Function.comp_def]
  exact List.zipIdx_map_fst 0 _

theorem map_command_entries (codec : Codec) :
    codec.entries.map Entry.command = codec.registry.commands := by
  calc codec.entries.map Entry.command
      = (codec.entries.map fun entry => (entry.command, entry.header)).map Prod.fst := by
        rw [List.map_map]
        rfl
    _ = codec.registry.commands := by
        rw [map_row_entries, List.map_fst_zip (Nat.le_of_eq codec.length_headers.symm)]

theorem command_mem_of_mem {codec : Codec} {entry : Entry} (hentry : entry ∈ codec.entries) :
    entry.command ∈ codec.registry.commands := by
  rw [← map_command_entries]
  exact List.mem_map_of_mem hentry

theorem map_header_entries (codec : Codec) :
    codec.entries.map Entry.header = codec.headers := by
  calc codec.entries.map Entry.header
      = (codec.entries.map fun entry => (entry.command, entry.header)).map Prod.snd := by
        rw [List.map_map]
        rfl
    _ = codec.headers := by
        rw [map_row_entries, List.map_snd_zip (Nat.le_of_eq codec.length_headers)]

theorem map_id_entries (codec : Codec) :
    codec.entries.map Entry.id = List.range codec.registry.commands.length := by
  calc codec.entries.map Entry.id
      = (codec.registry.commands.zip codec.headers).zipIdx.map Prod.snd := by
        simp only [entries, List.map_map, Function.comp_def]
    _ = List.range codec.registry.commands.length := by
        rw [List.zipIdx_map_snd, List.length_zip, length_headers, Nat.min_self,
          List.range_eq_range']

theorem entry?_eq_some_iff : codec.entry? id = some entry ↔
    entry.id = id ∧ codec.registry.commands[id]? = some entry.command ∧
      codec.headers[id]? = some entry.header := by
  have hentry : codec.entry? id = (codec.registry.commands.zip codec.headers)[id]?.map
      fun row => ⟨id, row.1, row.2⟩ := by
    unfold entry? entries
    rw [List.getElem?_map, List.getElem?_zipIdx, Option.map_map, Nat.zero_add]
    rfl
  rw [hentry, Option.map_eq_some_iff]
  constructor
  · rintro ⟨row, hrow, rfl⟩
    exact ⟨rfl, List.getElem?_zip_eq_some.mp hrow⟩
  · rintro ⟨rfl, hboth⟩
    exact ⟨(entry.command, entry.header), List.getElem?_zip_eq_some.mpr hboth, rfl⟩

theorem mem_entries_iff : entry ∈ codec.entries ↔ codec.entry? entry.id = some entry := by
  constructor
  · intro hmem
    obtain ⟨id, hid⟩ := List.mem_iff_getElem?.mp hmem
    have hplace := (entry?_eq_some_iff.mp hid).1
    subst hplace
    exact hid
  · exact List.mem_of_getElem?

/-- Every command has an entry. -/
theorem exists_entry {command : Command} (hcommand : codec.registry.commands[id]? = some command) :
    ∃ header, codec.entry? id = some ⟨id, command, header⟩ := by
  have hid : id < codec.headers.length := by
    rw [length_headers]
    exact (List.getElem?_eq_some_iff.mp hcommand).1
  exact ⟨codec.headers[id], entry?_eq_some_iff.mpr ⟨rfl, hcommand, List.getElem?_eq_getElem hid⟩⟩

/-- The header of an entry is as long as the layout says. -/
theorem length_header_eq (hentry : codec.entry? id = some entry) :
    entry.header.length =
      codec.layout.headerLength codec.totalBits codec.registry.commands entry.command := by
  obtain ⟨-, hcommand, hheader⟩ := entry?_eq_some_iff.mp hentry
  have hat := congrArg (·[id]?) codec.map_length_headers
  simpa [Registry.lengths, totalBits, hcommand, hheader] using hat

theorem entry_sound (hentry : codec.entry? id = some entry) : entry.Sound codec.totalBits := by
  obtain ⟨-, hcommand, hheader⟩ := entry?_eq_some_iff.mp hentry
  have htable := (Registry.table_of_compileHeaders codec.compiled).2
  have hmem := List.mem_of_getElem? hcommand
  refine ⟨?_, htable.usable _ (List.mem_of_getElem? hheader)⟩
  rw [length_header_eq hentry]
  exact codec.layout.headerLength_add_le _ hmem
    (Registry.sum_le_of_compileHeaders codec.compiled _ hmem)

theorem sound_of_mem (hmem : entry ∈ codec.entries) : entry.Sound codec.totalBits :=
  entry_sound (mem_entries_iff.mp hmem)

/-- A raw value matches the header of at most one entry. -/
theorem entry_unique {first second : Entry} {raw : UInt64} (hfirst : first ∈ codec.entries)
    (hsecond : second ∈ codec.entries) (hmatch : first.header.Matches raw)
    (hmatch' : second.header.Matches raw) : first = second := by
  rw [mem_entries_iff] at hfirst hsecond
  have htable := (Registry.table_of_compileHeaders codec.compiled).2
  have hid : first.id = second.id :=
    htable.place_unique (entry?_eq_some_iff.mp hfirst).2.2 (entry?_eq_some_iff.mp hsecond).2.2
      hmatch hmatch'
  rw [hid] at hfirst
  exact Option.some.inj (hfirst.symm.trans hsecond)

end Codec

end CommandWord
