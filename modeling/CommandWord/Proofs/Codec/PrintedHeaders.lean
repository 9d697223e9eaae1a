import CommandWord.Proofs.Codec.Carrying
import CommandWord.Proofs.Codec.Compilation
import CommandWord.Proofs.Codec.Rows
import CommandWord.Proofs.Text.Binary

/-!
Headers as the report prints them. A printed header is the code in binary digits, so a raw value
matches a header exactly when the value in binary ends in the printed text, and because no raw
value matches two headers, no printed header ends another.
-/

namespace CommandWord

open Digits

namespace Header

variable {header other : Header}

theorem toList_bits (hcode : header.code.toNat + 1 < 2 ^ header.length) :
    header.bits.toList = padded 2 header.length header.code.toNat := by
  have hlength := length_pos_of_lt hcode
  rw [bits, if_neg (Nat.ne_of_gt hlength), paddedBinary, String.toList_ofList]

theorem length_toList_bits (hcode : header.code.toNat + 1 < 2 ^ header.length) :
    header.bits.toList.length = header.length := by
  rw [toList_bits hcode, length_padded (length_pos_of_lt hcode) (by omega)]

/-- The digits of a number end in a printed header exactly when the number leaves the code modulo
the power of two of its length. -/
theorem bits_suffix_padded_iff (hcode : header.code.toNat + 1 < 2 ^ header.length)
    {width n : Nat} (hwidth : header.length ≤ width) (hn : n < 2 ^ width) :
    header.bits.toList <:+ padded 2 width n ↔ n % 2 ^ header.length = header.code.toNat := by
  have hlength := length_toList_bits hcode
  have hpos := length_pos_of_lt hcode
  have hdigits := length_padded (by omega) hn
  rw [toList_bits hcode] at hlength ⊢
  rw [(isBinary_padded _ _).suffix_iff (isBinary_padded _ _) (by omega), hlength,
    ofDigitChars_padded, ofDigitChars_padded]

/-- A printed header that ends another matches the code of the other. -/
theorem matches_code_of_suffix (hcode : header.code.toNat + 1 < 2 ^ header.length)
    (hother : other.code.toNat + 1 < 2 ^ other.length)
    (hsuffix : header.bits.toList <:+ other.bits.toList) : header.Matches other.code := by
  have hshorter := hsuffix.length_le
  rw [length_toList_bits hcode, length_toList_bits hother] at hshorter
  rw [toList_bits hother, bits_suffix_padded_iff hcode hshorter (by omega)] at hsuffix
  exact matches_iff.mpr hsuffix

/-- The text shows the header: its digits, as many as it is long, spell the code and are not all
ones, and they end exactly those values of the word, in binary, that match. -/
structure ShownBy (header : Header) (totalBits : Nat) (text : String) : Prop where
  length_eq : text.length = header.length
  length_pos : 1 ≤ header.length
  digits : ∀ digit ∈ text.toList, digit = '0' ∨ digit = '1'
  value_eq : Nat.ofDigitChars 2 text.toList 0 = header.code.toNat
  zero_mem : '0' ∈ text.toList
  matches_iff : ∀ raw : UInt64, raw.toNat < 2 ^ totalBits →
    (header.Matches raw ↔ text.toList <:+ (paddedBinary totalBits raw.toNat).toList)

end Header

/-- The header of a sound entry is shown by its own text. -/
theorem Entry.Sound.shownBy_bits {entry : Entry} {totalBits : Nat}
    (hsound : entry.Sound totalBits) (hword : totalBits ≤ 64) :
    entry.header.ShownBy totalBits entry.header.bits := by
  have hcode := hsound.code_lt hword
  have hlength := Header.length_toList_bits hcode
  have hbinary := isBinary_padded entry.header.length entry.header.code.toNat
  have hvalue := ofDigitChars_padded entry.header.length entry.header.code.toNat
  rw [← Header.toList_bits hcode] at hbinary hvalue
  refine ⟨?_, hsound.length_pos hword, hbinary, hvalue, ?_, ?_⟩
  · rw [← String.length_toList, hlength]
  · apply hbinary.zero_mem
    rw [hvalue, hlength]
    exact hcode
  · intro raw hraw
    have hroom : entry.header.length ≤ totalBits := Nat.le_of_add_right_le hsound.room
    rw [paddedBinary, String.toList_ofList, Header.bits_suffix_padded_iff hcode hroom hraw]
    exact Header.matches_iff

namespace Codec

variable {codec : Codec}

/-- No printed header ends another: the code of the longer one would match both. -/
theorem eq_of_bits_suffix {i j : Nat} {first second : Entry}
    (hfirst : codec.entry? i = some first) (hsecond : codec.entry? j = some second)
    (hsuffix : first.header.bits.toList <:+ second.header.bits.toList) : i = j := by
  have hcode := (entry_sound hfirst).code_lt codec.totalBits_le
  have hcode' := (entry_sound hsecond).code_lt codec.totalBits_le
  have hmatches : first.header.Matches second.header.code :=
    Header.matches_code_of_suffix hcode hcode' hsuffix
  have hown : second.header.Matches second.header.code := Header.matches_code (by omega)
  have htable := (Registry.table_of_compileHeaders codec.compiled).2
  exact htable.place_unique (entry?_eq_some_iff.mp hfirst).2.2
    (entry?_eq_some_iff.mp hsecond).2.2 hmatches hown

/-- Every command has a row that shows its header, digit by digit, and no row's header ends the
header of another. -/
theorem printed_headers_suffix_free (codec : Codec) :
    (Report.ofCodec codec).rows.length = codec.registry.commands.length ∧
    (∀ (id : Nat) (row : ReportRow), (Report.ofCodec codec).rows[id]? = some row →
      ∃ header, codec.headers[id]? = some header ∧ row.headerLength = header.length ∧
        header.ShownBy codec.totalBits row.headerBits) ∧
    ∀ (i j : Nat) (first second : ReportRow), i ≠ j →
      (Report.ofCodec codec).rows[i]? = some first →
      (Report.ofCodec codec).rows[j]? = some second →
      ¬ first.headerBits.toList <:+ second.headerBits.toList := by
  refine ⟨codec.length_rows, ?_, ?_⟩
  · intro id row hrow
    obtain ⟨entry, hentry, rfl⟩ := exists_entry_of_row hrow
    have hsound := entry_sound hentry
    exact ⟨entry.header, (entry?_eq_some_iff.mp hentry).2.2, rfl,
      hsound.shownBy_bits codec.totalBits_le⟩
  · intro i j first second hne hfirst hsecond hsuffix
    obtain ⟨entry, hentry, rfl⟩ := exists_entry_of_row hfirst
    obtain ⟨other, hother, rfl⟩ := exists_entry_of_row hsecond
    exact hne (eq_of_bits_suffix hentry hother hsuffix)

/-- A header of one bit beside a header of eight whose code has only one. -/
theorem printed_headers_suffix_free_beside_one_bit :
    ∃ (codec : Codec) (first second : ReportRow),
      build 8 [⟨"MOVE", [7]⟩, ⟨"STOP", []⟩] .perCommand (.fixed 0x5A) = .ok codec ∧
      (Report.ofCodec codec).rows = [first, second] ∧ first.headerBits.toList = ['0'] ∧
      second.headerBits.length = 8 ∧
      ¬ first.headerBits.toList <:+ second.headerBits.toList := by
  obtain ⟨codec, hbuild⟩ : ∃ codec,
      build 8 [⟨"MOVE", [7]⟩, ⟨"STOP", []⟩] .perCommand (.fixed 0x5A) = .ok codec :=
    exists_build (by rintro (_ | _ | _ | _) <;> decide)
  obtain ⟨htotal, hcommands, hlayout, -⟩ := inputs_of_build hbuild
  have hlengths : (Report.ofCodec codec).rows.map ReportRow.headerLength = [1, 8] := by
    rw [map_headerLength_rows, Registry.lengths, htotal, hcommands, hlayout]
    rfl
  obtain ⟨hcount, hshown, hfree⟩ := printed_headers_suffix_free codec
  rw [hcommands] at hcount
  obtain ⟨first, second, hrows⟩ := List.length_eq_two.mp hcount
  rw [hrows] at hlengths hshown hfree
  obtain ⟨header, -, hlength, hfirst⟩ := hshown 0 first rfl
  obtain ⟨other, -, hlength', hsecond⟩ := hshown 1 second rfl
  simp only [List.map_cons, List.map_nil, List.cons.injEq, and_true] at hlengths
  have hone : first.headerBits.toList.length = 1 := by
    rw [String.length_toList, hfirst.length_eq, ← hlength, hlengths.1]
  obtain ⟨digit, hdigit⟩ := List.length_eq_one_iff.mp hone
  have hzero := hfirst.zero_mem
  rw [hdigit, List.mem_singleton] at hzero
  refine ⟨codec, first, second, hbuild, hrows, ?_, ?_,
    hfree 0 1 first second (by decide) rfl rfl⟩
  · rw [hdigit, hzero]
  · rw [hsecond.length_eq, ← hlength', hlengths.2]

end Codec

end CommandWord
