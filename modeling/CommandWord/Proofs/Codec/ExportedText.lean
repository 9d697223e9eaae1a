import CommandWord.Proofs.Bytes.Delimited
import CommandWord.Proofs.Codec.Compilation
import CommandWord.Proofs.Codec.Rows
import CommandWord.Proofs.Text.Binary
import CommandWord.Proofs.Text.Lines
import CommandWord.Proofs.Text.Numeral

/-!
The exported report can be read back. A line ends at the first line break, the name of a row at
the first equals sign, and the digits of a header and the numbers behind them at the next blank,
because none of these marks stands inside what it ends. So two reports that are exported as the
same text are the same report. The share of the code space, which is rounded, is not needed for
this: it follows from the rows.
-/

namespace CommandWord

open Digits

namespace Digits

/-- A number ends at the first mark that is no digit. -/
theorem IsNumeral.append_mark_inj {base first second : Nat} {mark : Char}
    {text other rest others : List Char} (hbase : base ≤ 16)
    (hfirst : IsNumeral base text first) (hsecond : IsNumeral base other second)
    (hmark : mark.isAlphanum = false) (heq : text ++ mark :: rest = other ++ mark :: others) :
    first = second ∧ rest = others := by
  obtain ⟨rfl, hrest⟩ :=
    CommandWord.append_mark_inj (hfirst.notMem hbase hmark) (hsecond.notMem hbase hmark) heq
  exact ⟨hfirst.unique hbase hsecond, hrest⟩

theorem toDigits_append_mark_inj {first second : Nat} {mark : Char} {rest others : List Char}
    (hmark : mark.isAlphanum = false)
    (heq : Nat.toDigits 10 first ++ mark :: rest = Nat.toDigits 10 second ++ mark :: others) :
    first = second ∧ rest = others :=
  (isNumeral_toDigits (by omega) (by omega) first).append_mark_inj (by omega)
    (isNumeral_toDigits (by omega) (by omega) second) hmark heq

theorem IsBinary.notMem {text : List Char} {c : Char} (htext : IsBinary text)
    (hzero : c ≠ '0') (hone : c ≠ '1') : c ∉ text := by
  intro hmem
  rcases htext c hmem with heq | heq
  · exact hzero heq
  · exact hone heq

end Digits

/-- Whatever the double is, its decimal is digits around a point. -/
theorem Decimal.newline_notMem_fixed (places : Nat) (x : Float) :
    '\n' ∉ (fixed places x).toList := by
  unfold fixed
  split
  simp [ofUnits, newline_notMem_toDigits]

theorem Layout.newline_notMem_name (layout : Layout) : '\n' ∉ layout.name.toList := by
  cases layout <;> decide

theorem Layout.name_injective : Function.Injective Layout.name := by
  intro first second heq
  cases first <;> cases second
  case perCommand.perCommand => rfl
  case uniform.uniform => rfl
  case perCommand.uniform => contradiction
  case uniform.perCommand => contradiction

/-! ### Rows -/

namespace ReportRow

/-- The name is an identifier and the header is shown in binary digits, so that the line of the
row shows where they end. -/
structure Legible (row : ReportRow) : Prop where
  name : IsIdentifier row.name
  header : IsBinary row.headerBits.toList

variable {first second : ReportRow}

theorem legible_ofEntry {entry : Entry} (hname : entry.command.HasUsableName) :
    (ofEntry entry).Legible := by
  refine ⟨hname.1, ?_⟩
  simp only [ofEntry, Header.bits]
  split
  · simp [IsBinary]
  · rw [paddedBinary, String.toList_ofList]
    exact isBinary_padded _ _

theorem toList_keyLine (row : ReportRow) :
    row.keyLine.toList = "command.".toList ++ (row.name.toList ++ '=' :: ("header:".toList ++
      (row.headerBits.toList ++ ' ' :: ("header_len:".toList ++
        (Nat.toDigits 10 row.headerLength ++ ' ' :: ("payload_bits:".toList ++
          (Nat.toDigits 10 row.payloadBits ++ ' ' :: ("capacity:".toList ++
            Nat.toDigits 10 row.capacity.toNat)))))))) := by
  simp only [keyLine, toString, String.toList_append, Nat.toList_repr, List.append_assoc]
  rfl

theorem Legible.newline_notMem (hrow : first.Legible) : '\n' ∉ first.keyLine.toList := by
  have hname := hrow.name.notMem (c := '\n') rfl
  have hheader := hrow.header.notMem (c := '\n') (by decide) (by decide)
  rw [toList_keyLine]
  simp [hname, hheader, newline_notMem_toDigits]

/-- The line of a row determines the row. -/
theorem Legible.eq_of_keyLine (hfirst : first.Legible) (hsecond : second.Legible)
    (hline : first.keyLine.toList = second.keyLine.toList) : first = second := by
  rw [toList_keyLine, toList_keyLine] at hline
  obtain ⟨hname, hline⟩ := append_mark_inj (hfirst.name.notMem rfl) (hsecond.name.notMem rfl)
    (List.append_cancel_left hline)
  obtain ⟨hheader, hline⟩ := append_mark_inj (hfirst.header.notMem (by decide) (by decide))
    (hsecond.header.notMem (by decide) (by decide)) (List.append_cancel_left hline)
  obtain ⟨hlength, hline⟩ := toDigits_append_mark_inj rfl (List.append_cancel_left hline)
  obtain ⟨hpayload, -⟩ := toDigits_append_mark_inj rfl (List.append_cancel_left hline)
  obtain ⟨name, headerBits, headerLength, payloadBits⟩ := first
  obtain ⟨name', headerBits', headerLength', payloadBits'⟩ := second
  obtain rfl : name = name' := String.toList_injective hname
  obtain rfl : headerBits = headerBits' := String.toList_injective hheader
  obtain rfl : headerLength = headerLength' := hlength
  obtain rfl : payloadBits = payloadBits' := hpayload
  rfl

/-- The lines of any number of rows determine the rows. -/
theorem eq_of_flatMap_keyLine {first second : List ReportRow}
    (hfirst : ∀ row ∈ first, row.Legible) (hsecond : ∀ row ∈ second, row.Legible)
    (hlines : first.flatMap (fun row => row.keyLine.toList ++ ['\n']) =
      second.flatMap fun row => row.keyLine.toList ++ ['\n']) : first = second := by
  induction first generalizing second with
  | nil =>
    cases second with
    | nil => rfl
    | cons other others => simp at hlines
  | cons row rows ih =>
    cases second with
    | nil => simp at hlines
    | cons other others =>
      rw [List.flatMap_cons, List.flatMap_cons, List.append_assoc, List.append_assoc] at hlines
      rw [List.forall_mem_cons] at hfirst hsecond
      obtain ⟨hline, hrest⟩ :=
        append_mark_inj hfirst.1.newline_notMem hsecond.1.newline_notMem hlines
      rw [hfirst.1.eq_of_keyLine hsecond.1 hline, ih hfirst.2 hsecond.2 hrest]

end ReportRow

/-! ### Reports -/

namespace Report

theorem toList_exportText (report : Report) :
    report.exportText.toList =
      "total_bits=".toList ++ (Nat.toDigits 10 report.totalBits ++ '\n' :: ("layout=".toList ++
        (report.layout.name.toList ++ '\n' :: ("fingerprint=".toList ++
          (padded 16 8 report.fingerprint.toNat ++ '\n' :: ("commands=".toList ++
            (Nat.toDigits 10 report.rows.length ++ '\n' :: ("code_space_used=".toList ++
              ((Decimal.fixed 6 report.codeSpaceUsed).toList ++ '\n' ::
                report.rows.flatMap fun row => row.keyLine.toList ++ ['\n']))))))))) := by
  rw [exportText, Lines.toList_unlines]
  simp only [fingerprintText, paddedHex, toString, List.cons_append, List.nil_append,
    List.flatMap_cons, List.flatMap_map, List.append_assoc, String.toList_append,
    String.toList_ofList, Nat.toList_repr]

/-- The exported text of a report with legible rows determines the report. -/
theorem eq_of_exportText {first second : Report} (hfirst : ∀ row ∈ first.rows, row.Legible)
    (hsecond : ∀ row ∈ second.rows, row.Legible)
    (htext : first.exportText = second.exportText) : first = second := by
  have hlines := congrArg String.toList htext
  rw [toList_exportText, toList_exportText] at hlines
  obtain ⟨hbits, hlines⟩ := toDigits_append_mark_inj rfl (List.append_cancel_left hlines)
  obtain ⟨hlayout, hlines⟩ := append_mark_inj first.layout.newline_notMem_name
    second.layout.newline_notMem_name (List.append_cancel_left hlines)
  obtain ⟨hfingerprint, hlines⟩ :=
    (isNumeral_padded (by omega) (by omega) 8 first.fingerprint.toNat).append_mark_inj (by omega)
      (isNumeral_padded (by omega) (by omega) 8 second.fingerprint.toNat) rfl
      (List.append_cancel_left hlines)
  obtain ⟨-, hlines⟩ := toDigits_append_mark_inj rfl (List.append_cancel_left hlines)
  obtain ⟨-, hlines⟩ := append_mark_inj (Decimal.newline_notMem_fixed _ _)
    (Decimal.newline_notMem_fixed _ _) (List.append_cancel_left hlines)
  have hrows := ReportRow.eq_of_flatMap_keyLine hfirst hsecond hlines
  obtain ⟨totalBits, layout, fingerprint, rows⟩ := first
  obtain ⟨totalBits', layout', fingerprint', rows'⟩ := second
  obtain rfl : totalBits = totalBits' := hbits
  obtain rfl : layout = layout' := Layout.name_injective (String.toList_injective hlayout)
  obtain rfl : fingerprint = fingerprint' := UInt32.toNat_inj.mp hfingerprint
  obtain rfl : rows = rows' := hrows
  rfl

theorem legible_of_mem_rows (codec : Codec) : ∀ row ∈ (ofCodec codec).rows, row.Legible := by
  intro row hrow
  simp only [ofCodec, List.mem_map] at hrow
  obtain ⟨entry, hentry, rfl⟩ := hrow
  exact ReportRow.legible_ofEntry (codec.registry.valid.usable _ (Codec.command_mem_of_mem hentry))

/-- Codecs whose reports are exported as the same text have the same report: the same word,
layout and fingerprint, and the same rows in the same order. -/
theorem exportText_determines_report {first second : Codec}
    (htext : (ofCodec first).exportText = (ofCodec second).exportText) :
    ofCodec first = ofCodec second :=
  eq_of_exportText (legible_of_mem_rows first) (legible_of_mem_rows second) htext

/-- A field of three bits, and two fields of one and two bits under the mask that gives the same
fingerprint: the codecs differ, but their text is one and so is their report. -/
theorem exportText_determines_report_of_split_field :
    ∃ first second,
      Codec.build 32 [⟨"MOVE", [3]⟩] .perCommand (.fixed 0) = .ok first ∧
        Codec.build 32 [⟨"MOVE", [1, 2]⟩] .perCommand (.fixed 0x298494E6) = .ok second ∧
        (ofCodec first).exportText = (ofCodec second).exportText ∧
        ofCodec first = ofCodec second := by
  obtain ⟨first, hfirst⟩ : ∃ codec : Codec, codec = ⟨⟨32, [⟨"MOVE", [3]⟩], by decide⟩,
      .perCommand, [⟨0, 29⟩], 0, by decide +kernel, by decide⟩ := ⟨_, rfl⟩
  obtain ⟨second, hsecond⟩ : ∃ codec : Codec, codec = ⟨⟨32, [⟨"MOVE", [1, 2]⟩], by decide⟩,
      .perCommand, [⟨0, 29⟩], 0x298494E6, by decide +kernel, by decide⟩ := ⟨_, rfl⟩
  have hbuild := Codec.build_parts first
  have hbuild' := Codec.build_parts second
  have htext : (ofCodec first).exportText = (ofCodec second).exportText := by
    apply congrArg exportText
    rw [hfirst, hsecond]
    decide +kernel
  have hreport := exportText_determines_report htext
  subst hfirst hsecond
  exact ⟨_, _, hbuild, hbuild', htext, hreport⟩

end Report

end CommandWord
