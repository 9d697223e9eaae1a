import CommandWord.Proofs.Codec.Compilation
import CommandWord.Proofs.Codec.Rows
import CommandWord.Proofs.Codec.Wire
import Mathlib.Algebra.BigOperators.Fin
import Mathlib.Data.Set.Card.Arithmetic
import Mathlib.Order.Interval.Set.Nat

/-!
How many values carry a message. Encoding and decoding pair the field values of a command with
the values of the word that are decoded to it, and packing numbers the field values without a
gap, so both are as many as the payload has patterns. No value belongs to two commands, and the
sentinel belongs to none.
-/

namespace CommandWord

theorem bijOn_packed {widths : List Nat} (hword : widths.sum ≤ 64) :
    Set.BijOn (packed widths) {values | Fill widths values} (Set.Iio (2 ^ widths.sum)) :=
  ⟨fun _ => packed_lt, fun _ hleft _ hright => packed_injective hleft hright,
    fun _ => exists_packed_eq hword⟩

theorem ncard_fill {widths : List Nat} (hword : widths.sum ≤ 64) :
    {values | Fill widths values}.ncard = 2 ^ widths.sum := by
  rw [(bijOn_packed hword).ncard_eq, Set.ncard_Iio_nat]

theorem ReportRow.toNat_capacity {row : ReportRow} (hpayload : row.payloadBits < 64) :
    row.capacity.toNat = 2 ^ row.payloadBits := by
  rw [capacity, if_pos hpayload, UInt64.toNat_ofNat', Nat.one_shiftLeft]
  exact Nat.mod_eq_of_lt (Nat.pow_lt_pow_right (by omega) hpayload)

namespace Codec

variable {codec : Codec} {id : Nat} {command : Command}

/-- The values of the word that are decoded to a message of the command. -/
def valuesOf (codec : Codec) (id : Nat) : Set UInt64 :=
  {value | value.toNat < 2 ^ codec.totalBits ∧ ∃ fields, codec.decode value = .ok ⟨id, fields⟩}

/-- The values of the word that are decoded to a message. -/
def accepted (codec : Codec) : Set UInt64 :=
  {value | value.toNat < 2 ^ codec.totalBits ∧ ∃ message, codec.decode value = .ok message}

theorem sum_fields_lt (hcommand : codec.registry.commands[id]? = some command) :
    command.fields.sum < codec.totalBits := by
  obtain ⟨header, hentry⟩ := exists_entry hcommand
  exact (entry_sound hentry).sum_fields_lt codec.totalBits_le

theorem payloadBits_eq_sum (hcommand : codec.registry.commands[id]? = some command) :
    command.payloadBits = command.fields.sum :=
  Command.payloadBits_of_le codec.totalBits_le (Nat.le_of_lt (sum_fields_lt hcommand))

/-- The value that fields are encoded to for a command, or zero where they are refused. -/
def encoded (codec : Codec) (id : Nat) (fields : List UInt64) : UInt64 :=
  (codec.encode ⟨id, fields⟩).toOption.getD 0

theorem encoded_eq {fields : List UInt64} {value : UInt64}
    (hencode : codec.encode ⟨id, fields⟩ = .ok value) : codec.encoded id fields = value := by
  rw [encoded, hencode]
  rfl

/-- Encoding pairs the values for the fields of a command with the values decoded to it. -/
theorem bijOn_encoded (hcommand : codec.registry.commands[id]? = some command) :
    Set.BijOn (codec.encoded id) {fields | Fill command.fields fields} (codec.valuesOf id) := by
  refine ⟨?_, ?_, ?_⟩
  · intro fields hfill
    obtain ⟨value, hencode⟩ := encode_of_fill hcommand hfill
    have hconveys := encode_eq_ok_iff.mp hencode
    rw [encoded_eq hencode]
    exact ⟨fits_iff_lt.mp hconveys.fits, fields, decode_eq_ok_iff.mpr hconveys⟩
  · intro fields hfill others hothers heq
    obtain ⟨value, hencode⟩ := encode_of_fill hcommand hfill
    obtain ⟨other, hother⟩ := encode_of_fill hcommand hothers
    rw [encoded_eq hencode, encoded_eq hother] at heq
    subst heq
    have hsame := (encode_eq_ok_iff.mp hencode).unique (encode_eq_ok_iff.mp hother)
    exact congrArg Message.fields hsame
  · intro value hvalue
    obtain ⟨-, fields, hdecode⟩ := hvalue
    have hconveys := decode_eq_ok_iff.mp hdecode
    exact ⟨fields, hconveys.fill hcommand, encoded_eq (encode_eq_ok_iff.mpr hconveys)⟩

theorem ncard_valuesOf (hcommand : codec.registry.commands[id]? = some command) :
    (codec.valuesOf id).ncard = 2 ^ command.payloadBits := by
  have hword := codec.totalBits_le
  have hsum := sum_fields_lt hcommand
  rw [← (bijOn_encoded hcommand).ncard_eq, ncard_fill (by omega), payloadBits_eq_sum hcommand]

theorem accepted_eq_iUnion (codec : Codec) :
    codec.accepted = ⋃ id : Fin codec.registry.commands.length, codec.valuesOf id := by
  ext value
  rw [Set.mem_iUnion]
  constructor
  · intro haccepted
    obtain ⟨hvalue, ⟨id, fields⟩, hdecode⟩ := haccepted
    obtain ⟨-, entry, hentry, -⟩ := decode_eq_ok_iff.mp hdecode
    have hcommand := (entry?_eq_some_iff.mp hentry).2.1
    exact ⟨⟨id, (List.getElem?_eq_some_iff.mp hcommand).1⟩, hvalue, fields, hdecode⟩
  · intro hsome
    obtain ⟨id, hvalue, fields, hdecode⟩ := hsome
    exact ⟨hvalue, ⟨id, fields⟩, hdecode⟩

theorem id_unique {other : Nat} {value : UInt64} (hvalue : value ∈ codec.valuesOf id)
    (hother : value ∈ codec.valuesOf other) : id = other := by
  obtain ⟨-, fields, hdecode⟩ := hvalue
  obtain ⟨-, others, hdecode'⟩ := hother
  exact congrArg Message.id (Except.ok.inj (hdecode.symm.trans hdecode'))

/-- The accepted values are as many as the payloads of all commands together. -/
theorem ncard_accepted (codec : Codec) :
    codec.accepted.ncard =
      (codec.registry.commands.map fun command => 2 ^ command.payloadBits).sum := by
  have hcount : ∀ id : Fin codec.registry.commands.length,
      (codec.valuesOf id).ncard = 2 ^ codec.registry.commands[id].payloadBits :=
    fun id => ncard_valuesOf (List.getElem?_eq_getElem id.isLt)
  have hfinite : ∀ id : Fin codec.registry.commands.length, (codec.valuesOf id).Finite := by
    intro id
    apply Set.finite_of_ncard_ne_zero
    rw [hcount]
    exact Nat.ne_of_gt (Nat.two_pow_pos _)
  have hdisjoint : Pairwise (Function.onFun Disjoint fun id : Fin codec.registry.commands.length =>
      codec.valuesOf id) := by
    intro id other hne
    rw [Function.onFun, Set.disjoint_left]
    intro value hvalue hother
    exact hne (Fin.ext (id_unique hvalue hother))
  rw [accepted_eq_iUnion, Set.ncard_iUnion_of_finite hfinite hdisjoint,
    finsum_eq_sum_of_fintype, ← Fin.sum_univ_fun_getElem]
  exact Finset.sum_congr rfl fun id _ => hcount id

/-- The raw values of messages leave out the highest of the word. -/
theorem ncard_accepted_le (codec : Codec) : codec.accepted.ncard ≤ 2 ^ codec.totalBits - 1 := by
  rw [← Set.ncard_Iio_nat (2 ^ codec.totalBits - 1)]
  -- values are counted by their raw values, which determine them
  apply Set.ncard_le_ncard_of_injOn fun value => (codec.unwrap value).toNat
  · intro value hvalue
    obtain ⟨-, message, hdecode⟩ := hvalue
    have hlt := (decode_eq_ok_iff.mp hdecode).unwrap_lt
    rw [Set.mem_Iio]
    omega
  · intro first hfirst second hsecond hraw
    obtain ⟨-, message, hdecode⟩ := hfirst
    obtain ⟨-, other, hdecode'⟩ := hsecond
    have hconveys := decode_eq_ok_iff.mp hdecode
    have hconveys' := decode_eq_ok_iff.mp hdecode'
    rw [← wrap_unwrap hconveys.fits hconveys.unwrap_lt,
      ← wrap_unwrap hconveys'.fits hconveys'.unwrap_lt, UInt64.toNat_inj.mp hraw]

theorem toNat_capacity_ofEntry {entry : Entry} (hentry : codec.entry? id = some entry) :
    (ReportRow.ofEntry entry).payloadBits < 64 ∧
      (ReportRow.ofEntry entry).capacity.toNat = 2 ^ entry.command.payloadBits := by
  have hcommand := (entry?_eq_some_iff.mp hentry).2.1
  have hpayload : entry.command.payloadBits < 64 := by
    rw [payloadBits_eq_sum hcommand]
    exact Nat.lt_of_lt_of_le (sum_fields_lt hcommand) codec.totalBits_le
  exact ⟨hpayload, ReportRow.toNat_capacity hpayload⟩

theorem sum_capacity_rows (codec : Codec) :
    ((Report.ofCodec codec).rows.map fun row => row.capacity.toNat).sum =
      (codec.registry.commands.map fun command => 2 ^ command.payloadBits).sum := by
  rw [← map_command_entries, Report.ofCodec, List.map_map, List.map_map]
  refine congrArg List.sum (List.map_congr_left ?_)
  intro entry hentry
  exact (toNat_capacity_ofEntry (mem_entries_iff.mp hentry)).2

/-- As many values are decoded to a command as there are values for its fields, and the report
says how many that is. The sum over all commands is the number of accepted values, and it leaves
out at least one value of the word. -/
theorem decoded_values_counted (codec : Codec) :
    (∀ id command, codec.registry.commands[id]? = some command →
      (codec.valuesOf id).ncard = 2 ^ command.payloadBits ∧
      {fields | Fill command.fields fields}.ncard = 2 ^ command.payloadBits ∧
      ∃ row, (Report.ofCodec codec).rows[id]? = some row ∧ row.name = command.name ∧
        row.payloadBits = command.payloadBits ∧ row.payloadBits < 64 ∧
        row.capacity.toNat = 2 ^ command.payloadBits) ∧
    codec.accepted.ncard =
      ((Report.ofCodec codec).rows.map fun row => row.capacity.toNat).sum ∧
    codec.accepted.ncard ≤ 2 ^ codec.totalBits - 1 := by
  refine ⟨?_, ?_, codec.ncard_accepted_le⟩
  · intro id command hcommand
    have hvalues := ncard_valuesOf hcommand
    obtain ⟨header, hentry⟩ := exists_entry hcommand
    obtain ⟨hpayload, hcapacity⟩ := toNat_capacity_ofEntry hentry
    refine ⟨hvalues, ?_, _, getElem?_rows hentry, rfl, rfl, hpayload, hcapacity⟩
    rw [(bijOn_encoded hcommand).ncard_eq, hvalues]
  · rw [ncard_accepted, sum_capacity_rows]

/-- Two bits of payload below padding that has to be clear. -/
theorem decoded_values_counted_beside_padding :
    ∃ codec,
      build 8 [⟨"A", [3]⟩, ⟨"B", []⟩, ⟨"C", [1, 1]⟩] .uniform (.fixed 0x5A) = .ok codec ∧
        codec.registry.commands[2]? = some ⟨"C", [1, 1]⟩ ∧ (codec.valuesOf 2).ncard = 4 := by
  obtain ⟨codec, hbuild⟩ : ∃ codec,
      build 8 [⟨"A", [3]⟩, ⟨"B", []⟩, ⟨"C", [1, 1]⟩] .uniform (.fixed 0x5A) = .ok codec :=
    exists_build (by rintro (_ | _ | _ | _) <;> decide)
  obtain ⟨-, hcommands, -, -⟩ := inputs_of_build hbuild
  have hcommand : codec.registry.commands[2]? = some ⟨"C", [1, 1]⟩ := by rw [hcommands]; rfl
  exact ⟨codec, hbuild, hcommand, ((decoded_values_counted codec).1 2 _ hcommand).1⟩

end Codec

end CommandWord
