import CommandWord.Proofs.Source.Agreement
import CommandWord.Proofs.Source.JavaReading

/-!
The Java source agrees with its codec. A signed word has more bits than the values of the codec,
so no value is negative, and negative words are refused on both sides of the wire.
-/

namespace CommandWord

theorem javaTarget_suits {codec : Codec} {size : Nat} (hbits : codec.totalBits ≤ 63)
    (hsize : size = if codec.totalBits ≤ 31 then 32 else 64) :
    (javaTarget size).Suits codec (size - 1) := by
  have hbounds : codec.totalBits < size ∧ 2 ≤ size ∧ size ≤ 64 := by
    split_ifs at hsize <;> omega
  obtain ⟨htotal, htwo, hword⟩ := hbounds
  refine ⟨WordArithmetic.signed_exact htwo, hword, by omega, codec.registry.valid.nodup_names⟩

/-- Whatever its names, the source is read as the program of its codec, and in signed words this
program computes what the codec computes. Arrays with a negative value are refused; every other
array is a list of fields, and gets the value of the codec, or is refused for its length or its
first field that is out of range. A word gives the message that the codec gives for its bits, or
both reject it, and a negative one is always rejected. No sum leaves the words, no shift reaches
their size, and no literal their sign. -/
theorem java_source_agrees (codec : Codec) {size : Nat} (hbits : codec.totalBits ≤ 63)
    (hsize : size = if codec.totalBits ≤ 31 then 32 else 64) :
    ∃ program, (∀ package className text, codec.emit (.java package className) = .ok text →
        JavaReading.program? text = some (size, program)) ∧
      (∀ id command, codec.registry.commands[id]? = some command →
        ∀ words : List (BitVec size),
          (∃ word ∈ words, word.toInt < 0) ∧
            ((javaTarget size).encode program ⟨command.name, words⟩ = .error .wrongArity ∨
              ∃ field, (javaTarget size).encode program ⟨command.name, words⟩ =
                .error (.fieldRange field)) ∨
          ∃ fields, SameNumbers BitVec.toInt words fields ∧
            SameValue BitVec.toInt (codec.encode ⟨id, fields⟩)
              ((javaTarget size).encode program ⟨command.name, words⟩)) ∧
      (∀ flag : BitVec size,
        SameMessage codec Command.name BitVec.toInt (codec.decode (unsignedWord flag))
            ((javaTarget size).decode program flag) ∧
          (flag.toInt < 0 → (javaTarget size).decode program flag = .error .mismatch)) ∧
      codec.totalBits < size ∧
      (∀ count ∈ program.shiftCounts, count < size) ∧
      ∀ literal ∈ program.literals, literal.toNat < 2 ^ (size - 1) := by
  have hsuits := javaTarget_suits hbits hsize
  have hreading := signed_reading size
  refine ⟨(javaTarget size).program codec, ?_, ?_, ?_, ?_, hsuits.shiftCounts_lt,
    hsuits.literals_lt⟩
  · intro package className text hsource
    exact JavaReading.program?_source hbits hsize hsource
  · intro id command hcommand words
    by_cases hnegative : ∃ word ∈ words, word.toInt < 0
    · obtain ⟨word, hmem, hword⟩ := hnegative
      exact Or.inl ⟨⟨word, hmem, hword⟩, hsuits.encode_of_negative hreading hcommand hmem hword⟩
    · have hwords : ∀ word ∈ words, word.toNat < 2 ^ (size - 1) := by
        intro word hmem
        by_contra hsign
        exact hnegative ⟨word, hmem, hreading.of_le (Nat.le_of_not_lt hsign)⟩
      have hsame := hreading.sameNumbers hsuits.size_le hwords
      exact Or.inr ⟨_, hsame, hsuits.encode_agrees hreading hcommand hsame⟩
  · intro flag
    exact ⟨hsuits.decode_agrees hreading flag, hsuits.decode_of_negative hreading⟩
  · split_ifs at hsize <;> omega

/-- Values of 31 bits in words of 32: a list of fields, and a flag with its sign set. -/
theorem java_source_agrees_in_int :
    ∃ codec text program value coded,
      Codec.build 31 [⟨"PING", []⟩, ⟨"MOVE", [20, 0, 10]⟩] .perCommand (.fixed 0x7FFFFFFF) =
          .ok codec ∧
        codec.emit (.java "bus.flags" "Codec") = .ok text ∧
        JavaReading.program? text = some (32, program) ∧
        codec.encode ⟨1, [0xABCDE, 0, 0x3FF]⟩ = .ok value ∧
        (javaTarget 32).encode program ⟨"MOVE", [0xABCDE, 0, 0x3FF]⟩ = .ok coded ∧
        coded.toInt = value.toNat ∧
        (javaTarget 32).decode program 0x80000000 = .error .mismatch := by
  obtain ⟨codec, hbuild⟩ : ∃ codec, Codec.build 31 [⟨"PING", []⟩, ⟨"MOVE", [20, 0, 10]⟩]
      .perCommand (.fixed 0x7FFFFFFF) = .ok codec :=
    Codec.exists_build (by rintro (_ | _ | _ | _) <;> decide)
  obtain ⟨hbits, hcommands, -, -⟩ := Codec.inputs_of_build hbuild
  have hbits : codec.totalBits = 31 := hbits
  have hcommand : codec.registry.commands[1]? = some ⟨"MOVE", [20, 0, 10]⟩ := by
    rw [hcommands]
    rfl
  obtain ⟨text, hemit⟩ : ∃ text, codec.emit (.java "bus.flags" "Codec") = .ok text := by
    have hfault : JavaText.nameFault codec "bus.flags" "Codec" = none := by
      rw [JavaText.nameFault, hcommands]
      decide
    rw [Codec.emit, JavaText.source, hbits, hfault]
    exact ⟨_, rfl⟩
  obtain ⟨program, hread, hencode, hdecode, -⟩ :=
    java_source_agrees codec (by omega : codec.totalBits ≤ 63)
      (by rw [hbits]; rfl : 32 = if codec.totalBits ≤ 31 then 32 else 64)
  have hreject := (hdecode 0x80000000).2 (by decide)
  obtain ⟨value, hvalue⟩ := Codec.encode_of_fill hcommand
    (by decide : Fill [20, 0, 10] [0xABCDE, 0, 0x3FF])
  rcases hencode 1 _ hcommand [0xABCDE, 0, 0x3FF] with ⟨hnegative, -⟩ | ⟨fields, hsame, hagrees⟩
  · exact absurd hnegative (by simp)
  · obtain rfl : [0xABCDE, 0, 0x3FF] = fields := (signed_reading 32).map_unsignedWord hsame
    rw [hvalue] at hagrees
    obtain ⟨coded, hcoded, hnumber⟩ := hagrees.exists_coded
    exact ⟨codec, text, program, value, coded, hbuild, hemit, hread _ _ _ hemit, hvalue, hcoded,
      hnumber, hreject⟩

end CommandWord
