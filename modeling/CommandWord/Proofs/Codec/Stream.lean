import CommandWord.Proofs.Bytes.Delimited
import CommandWord.Proofs.Codec.Masking
import CommandWord.Proofs.Text.Spelling
import Mathlib.Algebra.Order.BigOperators.Group.List

/-!
The stream that a fingerprint is taken over. Layouts, numbers and commands follow each other in
it without gaps, and each shows where it ends: layouts by their first letters, names by a zero
byte that no identifier contains, widths by their count. So the stream of a codec determines the
whole codec, and only the check over it can be the same for two of them.
-/

namespace CommandWord

/-- The names of the layouts differ in their first letters. -/
theorem Layout.delimited_name :
    Delimited (fun layout : Layout => layout.name.toUTF8.data.toList) fun _ => True := by
  intro first second _ _ rest others heq
  cases first <;> cases second
  case perCommand.perCommand => exact ⟨rfl, List.append_cancel_left heq⟩
  case uniform.uniform => exact ⟨rfl, List.append_cancel_left heq⟩
  case perCommand.uniform =>
    have hletter : (112 : UInt8) = 117 := (List.cons.inj heq).1
    contradiction
  case uniform.perCommand =>
    have hletter : (117 : UInt8) = 112 := (List.cons.inj heq).1
    contradiction

/-- What the stream says of a command and its header. -/
def rowBytes (row : Command × Header) : List UInt8 := Entry.bytes ⟨0, row.1, row.2⟩

/-- A command and a header that the stream keeps whole. -/
structure Storable (row : Command × Header) : Prop where
  name : IsIdentifier row.1.name
  arity : row.1.fields.length < 2 ^ 32
  width : ∀ width ∈ row.1.fields, width < 2 ^ 32
  length : row.2.length < 2 ^ 32

theorem delimited_rowBytes : Delimited rowBytes Storable := by
  intro first second hfirst hsecond rest others heq
  obtain ⟨⟨name, widths⟩, code, length⟩ := first
  obtain ⟨⟨otherName, otherWidths⟩, otherCode, otherLength⟩ := second
  simp only [rowBytes, Entry.bytes, List.append_assoc, List.cons_append] at heq
  obtain ⟨rfl, hcount⟩ :=
    utf8_append_zero_inj (hfirst.name.notMem rfl) (hsecond.name.notMem rfl) heq
  -- the count comes first, so the lists of widths have one length when they are compared
  obtain ⟨harity, hwidths⟩ := delimited_littleEndian 4 hfirst.arity hsecond.arity hcount
  obtain ⟨rfl, hcode⟩ :=
    (delimited_littleEndian 4).flatMap_append hfirst.width hsecond.width harity hwidths
  obtain ⟨hcodes, hlength⟩ := delimited_littleEndian 8 code.toNat_lt otherCode.toNat_lt hcode
  obtain ⟨rfl, hrest⟩ := delimited_littleEndian 4 hfirst.length hsecond.length hlength
  obtain rfl := UInt64.toNat_inj.mp hcodes
  exact ⟨rfl, hrest⟩

theorem rowBytes_ne_nil (row : Command × Header) : rowBytes row ≠ [] := by
  simp [rowBytes, Entry.bytes]

namespace Codec

/-- The place of an entry is not written. -/
theorem flatMap_bytes_entries (codec : Codec) :
    codec.entries.flatMap Entry.bytes =
      (codec.registry.commands.zip codec.headers).flatMap rowBytes := by
  rw [← map_row_entries, List.flatMap_map]
  rfl

/-- In a codec only the number of fields can be too large for the stream. -/
theorem storable_of_mem (codec : Codec)
    (harity : ∀ command ∈ codec.registry.commands, command.fields.length < 2 ^ 32) :
    ∀ row ∈ codec.registry.commands.zip codec.headers, Storable row := by
  intro row hmem
  rw [← map_row_entries, List.mem_map] at hmem
  obtain ⟨entry, hentry, rfl⟩ := hmem
  have hcommand := command_mem_of_mem hentry
  have hroom := (sound_of_mem hentry).room
  have hword := codec.totalBits_le
  refine ⟨(codec.registry.valid.usable _ hcommand).1, harity _ hcommand, ?_, ?_⟩
  · intro width hwidth
    have hle : width ≤ entry.command.fields.sum := List.le_sum_of_mem hwidth
    omega
  · show entry.header.length < 2 ^ 32
    omega

/-- Codecs whose streams agree were compiled from the same inputs to the same headers, provided
that the stream can count the fields of every command. -/
theorem bytes_determine_codec {first second : Codec}
    (hfirst : ∀ command ∈ first.registry.commands, command.fields.length < 2 ^ 32)
    (hsecond : ∀ command ∈ second.registry.commands, command.fields.length < 2 ^ 32)
    (hbytes : first.bytes = second.bytes) :
    first.totalBits = second.totalBits ∧ first.layout = second.layout ∧
      first.mask = second.mask ∧ first.registry.commands = second.registry.commands ∧
      first.headers = second.headers := by
  have hword : ∀ codec : Codec, codec.totalBits < 2 ^ 32 := by
    intro codec
    have hle := codec.totalBits_le
    omega
  simp only [bytes, List.append_assoc] at hbytes
  obtain ⟨hbits, hlayout⟩ := delimited_littleEndian 4 (hword first) (hword second) hbytes
  obtain ⟨hlayouts, hmask⟩ := Layout.delimited_name trivial trivial hlayout
  obtain ⟨hmasks, hentries⟩ :=
    delimited_littleEndian 8 first.mask.toNat_lt second.mask.toNat_lt hmask
  rw [flatMap_bytes_entries, flatMap_bytes_entries] at hentries
  have hrows := delimited_rowBytes.flatMap_injective rowBytes_ne_nil
    (first.storable_of_mem hfirst) (second.storable_of_mem hsecond) hentries
  refine ⟨hbits, hlayouts, UInt64.toNat_inj.mp hmasks, ?_, ?_⟩
  · have hcommands := congrArg (List.map Prod.fst) hrows
    rwa [List.map_fst_zip (Nat.le_of_eq first.length_headers.symm),
      List.map_fst_zip (Nat.le_of_eq second.length_headers.symm)] at hcommands
  · have hheaders := congrArg (List.map Prod.snd) hrows
    rwa [List.map_snd_zip (Nat.le_of_eq first.length_headers),
      List.map_snd_zip (Nat.le_of_eq second.length_headers)] at hheaders

/-- A mask that was drawn and the same mask given outright, with a field of no bits. -/
theorem bytes_determine_codec_across_sources :
    ∃ first second,
      build 8 [⟨"A", [3]⟩, ⟨"B", [0, 2]⟩] .uniform (.entropy 0x35A) = .ok first ∧
        build 8 [⟨"A", [3]⟩, ⟨"B", [0, 2]⟩] .uniform (.fixed 0x5A) = .ok second ∧
        (∀ command ∈ first.registry.commands, command.fields.length < 2 ^ 32) ∧
        (∀ command ∈ second.registry.commands, command.fields.length < 2 ^ 32) ∧
        first.bytes = second.bytes ∧ first.headers = second.headers := by
  obtain ⟨first, hfirst⟩ : ∃ codec,
      build 8 [⟨"A", [3]⟩, ⟨"B", [0, 2]⟩] .uniform (.entropy 0x35A) = .ok codec :=
    exists_build (by rintro (_ | _ | _ | _) <;> decide)
  obtain ⟨second, hsecond⟩ : ∃ codec,
      build 8 [⟨"A", [3]⟩, ⟨"B", [0, 2]⟩] .uniform (.fixed 0x5A) = .ok codec :=
    exists_build (by rintro (_ | _ | _ | _) <;> decide)
  obtain ⟨-, hcommands, -, hdraw⟩ := inputs_of_build hfirst
  obtain ⟨-, hcommands', -, hdraw'⟩ := inputs_of_build hsecond
  have harity : ∀ command ∈ first.registry.commands, command.fields.length < 2 ^ 32 := by
    rw [hcommands]
    decide
  have harity' : ∀ command ∈ second.registry.commands, command.fields.length < 2 ^ 32 := by
    rw [hcommands']
    decide
  have hmasks : second.mask = first.mask := by
    rw [← Except.ok.inj hdraw, ← Except.ok.inj hdraw']
    decide
  have hbytes : first.bytes = second.bytes := by
    obtain ⟨hmask, hsame⟩ := exists_eq_withMask hfirst hsecond
    generalize second.mask = mask at hmask hsame hmasks
    rw [hsame]
    subst hmasks
    rfl
  exact ⟨first, second, hfirst, hsecond, harity, harity', hbytes,
    (bytes_determine_codec harity harity' hbytes).2.2.2.2⟩

end Codec

end CommandWord
