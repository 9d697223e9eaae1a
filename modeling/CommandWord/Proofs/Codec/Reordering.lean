import CommandWord.Proofs.Codec.Compilation
import CommandWord.Proofs.Codec.Wire
import CommandWord.Proofs.Header.Reordering

/-!
Codecs whose commands stand in another order. In the per-command layout the length of a header
belongs to its command, so two such codecs are one allocation in two orders. As long as commands
of equal length keep their order, each keeps its header, and a command is encoded by name to the
same value.
-/

namespace CommandWord

namespace Codec

variable {sender receiver : Codec}

/-- The commands of a codec with the lengths of their headers. -/
def sized (codec : Codec) : List (Command × Nat) :=
  codec.registry.commands.zip (codec.headers.map Header.length)

theorem allocateHeaders_headers (codec : Codec) :
    codec.registry.allocateHeaders (codec.headers.map Header.length) = .ok codec.headers := by
  have hcompiled := codec.compiled
  rw [Registry.compileHeaders, Registry.headerLengths_of_sum_le codec.layout
    (Registry.sum_le_of_compileHeaders codec.compiled)] at hcompiled
  rw [map_length_headers]
  exact hcompiled

theorem length_le_of_mem {length : Nat} (hmem : length ∈ sender.headers.map Header.length) :
    length ≤ 64 := by
  rw [map_length_headers] at hmem
  exact Registry.le_word_of_mem_lengths hmem

theorem sized_perCommand (hlayout : sender.layout = .perCommand) :
    sender.sized = sender.registry.commands.map fun command =>
      (command, sender.totalBits - command.fields.sum) := by
  rw [sized, map_length_headers, hlayout]
  exact List.map_prod_left_eq_zip.symm

theorem reordered_of_perm (hlayout : sender.layout = .perCommand)
    (hlayout' : receiver.layout = .perCommand) (hbits : sender.totalBits = receiver.totalBits)
    (hperm : sender.registry.commands.Perm receiver.registry.commands) :
    Reordered sender.registry receiver.registry (sender.headers.map Header.length)
      (receiver.headers.map Header.length) := by
  refine ⟨?_, ?_, ?_⟩
  · rw [List.length_map, length_headers]
  · rw [List.length_map, length_headers]
  · change sender.sized.Perm receiver.sized
    rw [sized_perCommand hlayout, sized_perCommand hlayout', hbits]
    exact hperm.map _

/-- A message by name is the message of the command that has the name. -/
theorem encodeNamed_name (codec : Codec) {id : Nat} {command : Command}
    (hcommand : codec.registry.commands[id]? = some command) (fields : List UInt64) :
    codec.encodeNamed command.name fields = codec.encode ⟨id, fields⟩ := by
  rw [encodeNamed, Registry.find?_name hcommand]

/-- Every registered name with values that fit its fields is encoded. -/
theorem encodeNamed_of_fill (codec : Codec) {command : Command}
    (hcommand : command ∈ codec.registry.commands) {fields : List UInt64}
    (hfill : Fill command.fields fields) :
    ∃ id value, codec.registry.find? command.name = some id ∧
      codec.encodeNamed command.name fields = .ok value ∧
      codec.encode ⟨id, fields⟩ = .ok value := by
  obtain ⟨id, hid⟩ := List.mem_iff_getElem?.mp hcommand
  obtain ⟨value, hencode⟩ := encode_of_fill hid hfill
  refine ⟨id, value, Registry.find?_name hid, ?_, hencode⟩
  rw [codec.encodeNamed_name hid, hencode]

/-- Codecs with the same commands, each under the same header, encode alike by name. -/
theorem encodeNamed_eq_of_headers (hmask : sender.mask = receiver.mask)
    (hperm : sender.registry.commands.Perm receiver.registry.commands)
    (hheaders : ∀ name, sender.registry.headerNamed? sender.headers name =
      receiver.registry.headerNamed? receiver.headers name)
    (name : String) (fields : List UInt64) :
    sender.encodeNamed name fields = receiver.encodeNamed name fields := by
  by_cases hname : name ∈ sender.registry.commands.map Command.name
  · obtain ⟨command, hmem, rfl⟩ := List.mem_map.mp hname
    obtain ⟨i, hi⟩ := List.mem_iff_getElem?.mp hmem
    obtain ⟨j, hj⟩ := List.mem_iff_getElem?.mp (hperm.mem_iff.mp hmem)
    obtain ⟨header, hentry⟩ := exists_entry hi
    have hheader := hheaders command.name
    rw [Registry.headerNamed?, Registry.headerNamed?, Registry.find?_name hi,
      Registry.find?_name hj] at hheader
    have hplace : receiver.headers[j]? = some header :=
      hheader.symm.trans (entry?_eq_some_iff.mp hentry).2.2
    have hentry' : receiver.entry? j = some ⟨j, command, header⟩ :=
      entry?_eq_some_iff.mpr ⟨rfl, hj, hplace⟩
    have hwrap : sender.wrap = receiver.wrap := by
      funext raw
      rw [wrap, wrap, hmask]
    rw [sender.encodeNamed_name hi, receiver.encodeNamed_name hj]
    simp only [encode, rawValue, hentry, hentry', hwrap]
  · have hname' : name ∉ receiver.registry.commands.map Command.name :=
      fun hmem => hname ((hperm.map Command.name).mem_iff.mpr hmem)
    simp only [encodeNamed, Registry.find?_of_notMem hname, Registry.find?_of_notMem hname']

/-- Another order of commands and lengths neither makes an allocation fail nor changes the headers
that are handed out. Each command keeps its header exactly when commands of equal length keep
their order; codecs in the per-command layout with one mask then encode alike by name. -/
theorem reordering_keeps_headers :
    (∀ {first second : Registry} {lengths lengths' : List Nat},
      Reordered first second lengths lengths' → (∀ length ∈ lengths, length ≤ 64) →
      ((∃ headers, first.allocateHeaders lengths = .ok headers) ↔
        ∃ headers, second.allocateHeaders lengths' = .ok headers) ∧
      ∀ headers headers', first.allocateHeaders lengths = .ok headers →
        second.allocateHeaders lengths' = .ok headers' →
        headers.Perm headers' ∧
        ((∀ name, first.headerNamed? headers name = second.headerNamed? headers' name) ↔
          KeepsTies (first.commands.zip lengths) (second.commands.zip lengths'))) ∧
    ∀ {sender receiver : Codec}, sender.layout = .perCommand → receiver.layout = .perCommand →
      sender.totalBits = receiver.totalBits → sender.mask = receiver.mask →
      sender.registry.commands.Perm receiver.registry.commands →
      KeepsTies sender.sized receiver.sized →
      ∀ name fields, sender.encodeNamed name fields = receiver.encodeNamed name fields := by
  constructor
  · intro first second lengths lengths' hreordered hword
    refine ⟨hreordered.exists_allocateHeaders_iff hword, ?_⟩
    intro headers headers' hfirst hsecond
    refine ⟨?_, hreordered.headerNamed?_eq_iff hword hfirst hsecond⟩
    obtain ⟨rfl, rfl⟩ := hreordered.headers_eq_tables hword hfirst hsecond
    exact hreordered.table_perm
  · intro sender receiver hlayout hlayout' hbits hmask hperm hties
    have hreordered := reordered_of_perm hlayout hlayout' hbits hperm
    apply encodeNamed_eq_of_headers hmask hperm
    exact (hreordered.headerNamed?_eq_iff (fun _ => length_le_of_mem)
      sender.allocateHeaders_headers receiver.allocateHeaders_headers).mpr hties

/-- The command with the short header moves from the front to the back. -/
theorem reordering_keeps_headers_of_three :
    ∃ sender receiver,
      build 4 [⟨"S", [2]⟩, ⟨"L1", []⟩, ⟨"L2", []⟩] .perCommand (.fixed 5) = .ok sender ∧
        build 4 [⟨"L1", []⟩, ⟨"L2", []⟩, ⟨"S", [2]⟩] .perCommand (.fixed 5) = .ok receiver ∧
        sender.headers.Perm receiver.headers ∧
        ∀ name fields, sender.encodeNamed name fields = receiver.encodeNamed name fields := by
  obtain ⟨sender, hsender⟩ : ∃ codec,
      build 4 [⟨"S", [2]⟩, ⟨"L1", []⟩, ⟨"L2", []⟩] .perCommand (.fixed 5) = .ok codec :=
    exists_build (by rintro (_ | _ | _ | _) <;> decide)
  obtain ⟨receiver, hreceiver⟩ : ∃ codec,
      build 4 [⟨"L1", []⟩, ⟨"L2", []⟩, ⟨"S", [2]⟩] .perCommand (.fixed 5) = .ok codec :=
    exists_build (by rintro (_ | _ | _ | _) <;> decide)
  obtain ⟨hbits, hcommands, hlayout, hmask⟩ := inputs_of_build hsender
  obtain ⟨hbits', hcommands', hlayout', hmask'⟩ := inputs_of_build hreceiver
  have hperm : sender.registry.commands.Perm receiver.registry.commands := by
    rw [hcommands, hcommands']
    decide
  have hsame : sender.totalBits = receiver.totalBits := hbits.trans hbits'.symm
  have hmasks : sender.mask = receiver.mask := Except.ok.inj (hmask.symm.trans hmask')
  have hword : receiver.totalBits = 4 := hbits'
  have hties : KeepsTies sender.sized receiver.sized := by
    rw [sized_perCommand hlayout, sized_perCommand hlayout', hsame, hword, hcommands, hcommands']
    decide
  obtain ⟨hheaders, -⟩ := (reordering_keeps_headers.1
    (reordered_of_perm hlayout hlayout' hsame hperm) fun _ => length_le_of_mem).2 _ _
    sender.allocateHeaders_headers receiver.allocateHeaders_headers
  exact ⟨sender, receiver, hsender, hreceiver, hheaders,
    reordering_keeps_headers.2 hlayout hlayout' hsame hmasks hperm hties⟩

end Codec

end CommandWord
