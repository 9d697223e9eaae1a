import CommandWord.Proofs.Codec.Wire

/-!
Which fault an encoding reports. A message of a known command with one value for each field
either fills the fields or has a first value that does not fit its width, and that value is the
one that is reported.
-/

namespace CommandWord

/-- The value at place `field` is the first that does not fit its width. -/
inductive Misfit : List Nat → List UInt64 → (field width : Nat) → UInt64 → Prop where
  | head {width : Nat} {value : UInt64} (widths : List Nat) (values : List UInt64) :
      2 ^ width ≤ value.toNat → Misfit (width :: widths) (value :: values) 0 width value
  | tail {widths : List Nat} {values : List UInt64} {field width first : Nat}
      {value fitting : UInt64} :
      fitting.toNat < 2 ^ first → Misfit widths values field width value →
        Misfit (first :: widths) (fitting :: values) (field + 1) width value

theorem fill_or_misfit {widths : List Nat} {values : List UInt64}
    (hlength : widths.length = values.length) :
    Fill widths values ∨ ∃ field width value, Misfit widths values field width value := by
  induction widths generalizing values with
  | nil =>
    obtain rfl := List.length_eq_zero_iff.mp hlength.symm
    exact Or.inl .nil
  | cons width widths ih =>
    cases values with
    | nil => simp at hlength
    | cons value values =>
      by_cases hvalue : value.toNat < 2 ^ width
      · rcases ih (by simpa using hlength) with hfill | ⟨field, other, unfit, hmisfit⟩
        · exact Or.inl (.cons hvalue hfill)
        · exact Or.inr ⟨field + 1, other, unfit, .tail hvalue hmisfit⟩
      · exact Or.inr ⟨0, width, value, .head widths values (by omega)⟩

theorem Command.packFrom_of_misfit (command : Command) {writer : BitWriter}
    (hvalid : writer.Valid) (start : Nat) {widths : List Nat} {values : List UInt64}
    {field width : Nat} {value : UInt64} (hmisfit : Misfit widths values field width value)
    (hroom : writer.length + widths.sum ≤ 64) :
    packFrom command writer start (widths.zip values) =
      .error (.field (.outOfRange command.name (start + field) value width)) := by
  induction hmisfit generalizing writer start with
  | @head width value widths values hvalue =>
    rw [List.sum_cons] at hroom
    rw [List.zip_cons_cons, packFrom, BitWriter.write_of_le (by omega) hvalue]
    rfl
  | @tail widths values field width first value fitting hfitting _ ih =>
    rw [List.sum_cons] at hroom
    obtain ⟨next, hwrite, hnext, hlength, -⟩ :=
      BitWriter.write_of_lt hvalid (by omega : writer.length + first ≤ 64) hfitting
    rw [List.zip_cons_cons, packFrom, hwrite]
    simp only
    rw [ih hnext (start + 1) (by omega), Nat.add_right_comm, Nat.add_assoc]

namespace Codec

variable {codec : Codec} {id : Nat} {command : Command} {fields : List UInt64}

theorem encode_of_length_ne (hcommand : codec.registry.commands[id]? = some command)
    (hlength : fields.length ≠ command.fields.length) :
    codec.encode ⟨id, fields⟩ =
      .error (.field (.wrongArity command.name command.fields.length fields.length)) := by
  obtain ⟨header, hentry⟩ := exists_entry hcommand
  simp only [encode, rawValue, hentry, Command.pack, if_pos hlength]
  rfl

theorem encode_of_misfit (hcommand : codec.registry.commands[id]? = some command)
    (hlength : fields.length = command.fields.length) {field width : Nat} {value : UInt64}
    (hmisfit : Misfit command.fields fields field width value) :
    codec.encode ⟨id, fields⟩ =
      .error (.field (.outOfRange command.name field value width)) := by
  obtain ⟨header, hentry⟩ := exists_entry hcommand
  have hroom : header.length + command.fields.sum ≤ codec.totalBits := (entry_sound hentry).room
  have hword := codec.totalBits_le
  have hempty : BitWriter.empty.length + command.fields.sum ≤ 64 := by
    simp only [BitWriter.empty]
    omega
  have hpack := command.packFrom_of_misfit BitWriter.empty_valid 0 hmisfit hempty
  rw [Nat.zero_add] at hpack
  simp only [encode, rawValue, hentry, Command.pack, if_neg (not_not.mpr hlength), hpack]
  rfl

end Codec

end CommandWord
