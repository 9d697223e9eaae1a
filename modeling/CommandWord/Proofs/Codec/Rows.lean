import CommandWord.Proofs.Codec.Entries
import CommandWord.Report

/-!
The rows of a report. They are the entries of the codec in registry order, so every command has
exactly one row, with the length of its own header.
-/

namespace CommandWord.Codec

variable {codec : Codec} {id : Nat}

theorem getElem?_rows {entry : Entry} (hentry : codec.entry? id = some entry) :
    (Report.ofCodec codec).rows[id]? = some (ReportRow.ofEntry entry) := by
  simp only [Report.ofCodec, List.getElem?_map]
  exact congrArg (Option.map ReportRow.ofEntry) hentry

theorem exists_entry_of_row {row : ReportRow}
    (hrow : (Report.ofCodec codec).rows[id]? = some row) :
    ∃ entry, codec.entry? id = some entry ∧ row = .ofEntry entry := by
  rw [Report.ofCodec, List.getElem?_map, Option.map_eq_some_iff] at hrow
  obtain ⟨entry, hentry, rfl⟩ := hrow
  exact ⟨entry, hentry, rfl⟩

theorem length_rows (codec : Codec) :
    (Report.ofCodec codec).rows.length = codec.registry.commands.length := by
  rw [Report.ofCodec, List.length_map, ← map_command_entries, List.length_map]

theorem map_headerLength_rows (codec : Codec) :
    (Report.ofCodec codec).rows.map ReportRow.headerLength =
      codec.registry.lengths codec.layout := by
  calc (Report.ofCodec codec).rows.map ReportRow.headerLength
      = (codec.entries.map Entry.header).map Header.length := by
        rw [Report.ofCodec, List.map_map, List.map_map]
        rfl
    _ = codec.registry.lengths codec.layout := by
        rw [map_header_entries, map_length_headers]

end CommandWord.Codec
