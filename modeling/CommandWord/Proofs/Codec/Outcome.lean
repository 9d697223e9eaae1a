import CommandWord.Proofs.Codec.Compilation
import CommandWord.Proofs.Codec.Faults
import Mathlib.Algebra.BigOperators.Fin

/-!
What encoding comes to, in numbers. A message of a known command whose values all fit is the sum
of the header code and of each value times the power of two of the bit where its field begins; one
is added and the mask is applied. Every other message has a fault of its own, and a word without
room is never one of them.
-/

namespace CommandWord

/-- The lowest place whose value does not fit its width. -/
abbrev FirstMisfit (widths : List Nat) (values : List UInt64) (i width : Nat)
    (value : UInt64) : Prop :=
  FirstPlace (fun slot : Nat × UInt64 => 2 ^ slot.1 ≤ slot.2.toNat) (widths.zip values) i
    (width, value)

theorem Misfit.first {widths : List Nat} {values : List UInt64} {i width : Nat} {value : UInt64}
    (hmisfit : Misfit widths values i width value) : FirstMisfit widths values i width value := by
  induction hmisfit with
  | head widths values hover => exact .head hover
  | tail hfitting _ ih => exact ih.tail (Nat.not_le.mpr hfitting)

namespace Header

/-- The raw value of field values under a header as a sum of natural numbers. -/
def rawSum (header : Header) (widths : List Nat) (values : List UInt64) : Nat :=
  header.code.toNat +
    ∑ i : Fin values.length, values[i].toNat * 2 ^ (header.length + (widths.take i).sum)

theorem rawSum_eq (header : Header) {widths : List Nat} {values : List UInt64}
    (hlength : widths.length = values.length) :
    header.rawSum widths values =
      header.code.toNat + 2 ^ header.length * packed widths values := by
  rw [rawSum, packed_eq_sum hlength, Finset.mul_sum]
  congr 1
  apply Finset.sum_congr rfl
  intro i _
  rw [Nat.pow_add, Nat.mul_left_comm]

end Header

namespace Codec

variable {codec : Codec} {id : Nat} {command : Command} {header : Header}
  {fields : List UInt64}

theorem encode_of_le (hid : codec.registry.commands.length ≤ id) :
    codec.encode ⟨id, fields⟩ = .error (.unknownCommand ("#" ++ toString id)) := by
  have hnone : codec.entry? id = none := by
    cases hentry : codec.entry? id with
    | none => rfl
    | some entry =>
      obtain ⟨-, hcommand, -⟩ := entry?_eq_some_iff.mp hentry
      rw [List.getElem?_eq_none hid] at hcommand
      contradiction
  simp only [encode, rawValue, hnone]
  rfl

/-- Values that fill the fields are encoded to their sum, counted up by one and masked. -/
theorem encode_eq_rawSum (hentry : codec.entry? id = some ⟨id, command, header⟩)
    (hfill : Fill command.fields fields) :
    header.rawSum command.fields fields + 1 < 2 ^ codec.totalBits ∧
      ∃ value, codec.encode ⟨id, fields⟩ = .ok value ∧
        value.toNat = (header.rawSum command.fields fields + 1) ^^^ codec.mask.toNat := by
  obtain ⟨raw, hraw, hcarries⟩ := rawValue_of_fill hentry hfill
  have hsum : raw.toNat = header.rawSum command.fields fields := by
    rw [hcarries.toNat_eq, header.rawSum_eq hfill.length_eq]
  have hlt := (entry_sound hentry).carries_lt codec.totalBits_le hcarries
  rw [← hsum]
  refine ⟨hlt, codec.wrap raw, ?_, ?_⟩
  · rw [encode, hraw]
    rfl
  · rw [wrap, UInt64.toNat_xor, codec.toNat_succ hlt]

theorem encode_ne_bits (cause : BitError) : codec.encode ⟨id, fields⟩ ≠ .error (.bits cause) := by
  by_cases hid : codec.registry.commands.length ≤ id
  · rw [encode_of_le hid]
    nofun
  obtain ⟨command, hcommand⟩ : ∃ command, codec.registry.commands[id]? = some command :=
    ⟨_, List.getElem?_eq_getElem (Nat.lt_of_not_le hid)⟩
  by_cases hlength : fields.length = command.fields.length
  · rcases fill_or_misfit hlength.symm with hfill | ⟨i, width, value, hmisfit⟩
    · obtain ⟨value, hencode⟩ := encode_of_fill hcommand hfill
      rw [hencode]
      nofun
    · rw [encode_of_misfit hcommand hlength hmisfit]
      nofun
  · rw [encode_of_length_ne hcommand hlength]
    nofun

/-- An encoding reports a command that is not there, then a wrong number of values, then the
lowest value that does not fit; without a fault it is the sum of code and shifted values, counted
up by one and masked. It never reports a word without room. -/
theorem encode_reports_or_sums (codec : Codec) (id : Nat) (fields : List UInt64) :
    (codec.registry.commands.length ≤ id →
      codec.encode ⟨id, fields⟩ = .error (.unknownCommand ("#" ++ toString id))) ∧
    (∀ command, codec.registry.commands[id]? = some command →
      ∃ header, codec.headers[id]? = some header ∧
        (fields.length ≠ command.fields.length →
          codec.encode ⟨id, fields⟩ = .error
            (.field (.wrongArity command.name command.fields.length fields.length))) ∧
        (fields.length = command.fields.length → ¬ Fill command.fields fields →
          ∃ i width value, FirstMisfit command.fields fields i width value ∧
            codec.encode ⟨id, fields⟩ = .error
              (.field (.outOfRange command.name i value width))) ∧
        (Fill command.fields fields →
          header.rawSum command.fields fields + 1 < 2 ^ codec.totalBits ∧
            ∃ value, codec.encode ⟨id, fields⟩ = .ok value ∧
              value.toNat = (header.rawSum command.fields fields + 1) ^^^ codec.mask.toNat)) ∧
    ∀ cause, codec.encode ⟨id, fields⟩ ≠ .error (.bits cause) := by
  refine ⟨encode_of_le, ?_, ?_⟩
  · intro command hcommand
    obtain ⟨header, hentry⟩ := exists_entry hcommand
    refine ⟨header, (entry?_eq_some_iff.mp hentry).2.2, encode_of_length_ne hcommand, ?_,
      encode_eq_rawSum hentry⟩
    intro hlength hfill
    obtain ⟨i, width, value, hmisfit⟩ := (fill_or_misfit hlength.symm).resolve_left hfill
    exact ⟨i, width, value, hmisfit.first, encode_of_misfit hcommand hlength hmisfit⟩
  · exact encode_ne_bits

/-- The second value is the lowest of two that do not fit; a field of no bits stands behind the
last bit of the word. -/
theorem encode_reports_or_sums_in_full_word :
    ∃ (codec : Codec) (header : Header),
      build 64 [⟨"NONE", []⟩, ⟨"FULL", [60, 3, 0]⟩] .perCommand (.fixed 0xC3) = .ok codec ∧
      codec.headers[1]? = some header ∧
      codec.encode ⟨1, [0, 9, 1]⟩ = .error (.field (.outOfRange "FULL" 1 9 3)) ∧
      header.rawSum [60, 3, 0] [8, 7, 0] + 1 < 2 ^ codec.totalBits ∧
      ∃ value, codec.encode ⟨1, [8, 7, 0]⟩ = .ok value ∧
        value.toNat = (header.rawSum [60, 3, 0] [8, 7, 0] + 1) ^^^ codec.mask.toNat := by
  obtain ⟨codec, hbuild⟩ : ∃ codec,
      build 64 [⟨"NONE", []⟩, ⟨"FULL", [60, 3, 0]⟩] .perCommand (.fixed 0xC3) = .ok codec :=
    exists_build (by rintro (_ | _ | _ | _) <;> decide)
  obtain ⟨-, hcommands, -, -⟩ := inputs_of_build hbuild
  have hcommand : codec.registry.commands[1]? = some ⟨"FULL", [60, 3, 0]⟩ := by
    rw [hcommands]
    rfl
  obtain ⟨-, hreports, -⟩ := encode_reports_or_sums codec 1 [0, 9, 1]
  obtain ⟨-, -, -, hmisfit, -⟩ := hreports _ hcommand
  obtain ⟨i, width, value, hfirst, herror⟩ := hmisfit rfl (by decide)
  obtain ⟨-, hsums, -⟩ := encode_reports_or_sums codec 1 [8, 7, 0]
  obtain ⟨header, hheader, -, -, hsum⟩ := hsums _ hcommand
  have hlow : i ≠ 0 := by
    rintro rfl
    obtain ⟨rfl, rfl⟩ := Prod.mk.inj (Option.some.inj hfirst.at_place)
    exact absurd hfirst.holds (by decide)
  have hhigh : ¬ 1 < i := fun hlt => absurd (hfirst.earlier 1 hlt (3, 9) rfl) (by decide)
  obtain rfl : i = 1 := by omega
  obtain ⟨rfl, rfl⟩ := Prod.mk.inj (Option.some.inj hfirst.at_place)
  exact ⟨codec, header, hbuild, hheader, herror, hsum (by decide)⟩

end Codec

end CommandWord
