import CommandWord.Proofs.Source.Agreement
import CommandWord.Proofs.Source.RustReading

/-!
The Rust source agrees with its codec. Its words have at least as many bits as the values of the
codec, and each variant of its enumeration stands for one command.
-/

namespace CommandWord

namespace RustText

theorem le_wordBits {totalBits : Nat} (hword : totalBits ≤ 64) :
    totalBits ≤ wordBits totalBits := by
  unfold wordBits
  split_ifs <;> omega

theorem wordBits_le (totalBits : Nat) : wordBits totalBits ≤ 64 := by
  unfold wordBits
  split_ifs <;> omega

end RustText

theorem rustTarget_suits (codec : Codec) {size : Nat}
    (hsize : size = RustText.wordBits codec.totalBits) :
    (rustTarget size).Suits codec size where
  arithmetic := WordArithmetic.unsigned_exact size
  size_le := hsize ▸ RustText.wordBits_le codec.totalBits
  totalBits_le := hsize ▸ RustText.le_wordBits codec.totalBits_le
  kinds := codec.registry.valid.nodup

/-- The source is read as the program of its codec, and in unsigned words that hold every value
this program computes what the codec computes. A message gets the same value, or the first of its
fields that is out of range is reported; a value gives the same message, or both reject it. No
shift reaches the size of a word, and no literal leaves it. -/
theorem rust_source_agrees (codec : Codec) {size : Nat}
    (hsize : size = RustText.wordBits codec.totalBits) :
    ∃ text program, codec.emit .rust = .ok text ∧
      RustReading.program? text = some (size, program) ∧
      (∀ id command, codec.registry.commands[id]? = some command →
        ∀ (fields : List UInt64) (words : List (BitVec size)),
          SameNumbers unsignedNumber words fields →
            SameValue unsignedNumber (codec.encode ⟨id, fields⟩)
              ((rustTarget size).encode program ⟨command.variant, words⟩)) ∧
      (∀ value : BitVec size,
        SameMessage codec Command.variant unsignedNumber (codec.decode (unsignedWord value))
          ((rustTarget size).decode program value)) ∧
      (∀ count ∈ program.shiftCounts, count < size) ∧
      ∀ literal ∈ program.literals, literal.toNat < 2 ^ size := by
  have hsuits := rustTarget_suits codec hsize
  have hreading := unsigned_reading size
  refine ⟨RustText.source codec, (rustTarget size).program codec, rfl, ?_, ?_, ?_,
    hsuits.shiftCounts_lt, hsuits.literals_lt⟩
  · rw [hsize]
    exact RustReading.program?_source codec
  · intro id command hcommand fields words hsame
    exact hsuits.encode_agrees hreading hcommand hsame
  · exact hsuits.decode_agrees hreading

/-- Values of twelve bits in words of sixteen, with a field that has no bits. -/
theorem rust_source_agrees_in_sixteen_bits :
    ∃ codec text program value coded,
      Codec.build 12 [⟨"MOVE", [4, 0, 3]⟩, ⟨"STOP", []⟩] .uniform (.fixed 0x5A5) = .ok codec ∧
        codec.emit .rust = .ok text ∧ RustReading.program? text = some (16, program) ∧
        codec.encode ⟨0, [9, 0, 5]⟩ = .ok value ∧
        (rustTarget 16).encode program ⟨"Move", [9, 0, 5]⟩ = .ok coded ∧
        unsignedNumber coded = value.toNat := by
  obtain ⟨codec, hbuild⟩ : ∃ codec,
      Codec.build 12 [⟨"MOVE", [4, 0, 3]⟩, ⟨"STOP", []⟩] .uniform (.fixed 0x5A5) = .ok codec :=
    Codec.exists_build (by rintro (_ | _ | _ | _) <;> decide)
  obtain ⟨hbits, hcommands, -, -⟩ := Codec.inputs_of_build hbuild
  have hsize : 16 = RustText.wordBits codec.totalBits := by
    rw [Codec.totalBits, hbits]
    rfl
  have hcommand : codec.registry.commands[0]? = some ⟨"MOVE", [4, 0, 3]⟩ := by
    rw [hcommands]
    rfl
  have hsame : SameNumbers unsignedNumber [(9 : BitVec 16), 0, 5] [9, 0, 5] :=
    .cons rfl (.cons rfl (.cons rfl .nil))
  obtain ⟨value, hvalue⟩ := Codec.encode_of_fill hcommand (by decide : Fill [4, 0, 3] [9, 0, 5])
  obtain ⟨text, program, hemit, hread, hencode, -⟩ := rust_source_agrees codec hsize
  have hagrees := hencode 0 _ hcommand _ _ hsame
  rw [hvalue] at hagrees
  obtain ⟨coded, hcoded, hnumber⟩ := hagrees.exists_coded
  exact ⟨codec, text, program, value, coded, hbuild, hemit, hread, hvalue, hcoded, hnumber⟩

end CommandWord
