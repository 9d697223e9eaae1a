import CommandWord.Proofs.Bits.Writing

/-!
Reading and writing undo each other. Widths that were written are read back to the values that
were written and leave nothing above them; values that were read can be written again and give
the word back, less what stands above the last of them. A call to a reader fails only for want of
bits and never moves it then.
-/

namespace CommandWord

/-- One call to a reader. -/
inductive ReaderCall where
  | read (width : Nat)
  | skip (width : Nat)
  deriving DecidableEq

def ReaderCall.width : ReaderCall → Nat
  | read width => width
  | skip width => width

namespace BitReader

/-- The reader behind a call. -/
def advance (reader : BitReader) : ReaderCall → Except BitError BitReader
  | .read width => (reader.read width).map Prod.snd
  | .skip width => reader.skip width

/-- The reader after a call, whatever the answer is. A skip takes its bits as a read does. -/
def attempt (reader : BitReader) (call : ReaderCall) : BitReader :=
  (reader.call call.width).2

/-- The reader after calls of which any may fail. -/
def run (reader : BitReader) : List ReaderCall → BitReader
  | [] => reader
  | call :: rest => (reader.attempt call).run rest

theorem read_of_lt_width {reader : BitReader} {width : Nat}
    (hroom : 64 - reader.position < width) :
    reader.read width = .error (.insufficientBits width (64 - reader.position)) := by
  rw [read_eq, if_pos hroom]

/-- A skip moves the reader as a read of the same width does. -/
theorem advance_eq (reader : BitReader) (call : ReaderCall) :
    reader.advance call = (reader.read call.width).map Prod.snd := by
  cases call <;> rfl

/-- Everything a call can do to a reader within its word. -/
theorem advance_cases {reader : BitReader} (hposition : reader.position ≤ 64)
    (call : ReaderCall) :
    (64 - reader.position < call.width ∧
      reader.advance call = .error (.insufficientBits call.width (64 - reader.position))) ∨
    (reader.position + call.width ≤ 64 ∧
      reader.advance call = .ok ⟨reader.word, reader.position + call.width⟩) := by
  rw [advance_eq]
  by_cases hroom : 64 - reader.position < call.width
  · refine Or.inl ⟨hroom, ?_⟩
    rw [read_of_lt_width hroom]
    rfl
  · have hle : reader.position + call.width ≤ 64 := by omega
    obtain ⟨value, hread, -⟩ := read_of_le hle
    refine Or.inr ⟨hle, ?_⟩
    rw [hread]
    rfl

theorem attempt_of_ok {reader next : BitReader} {call : ReaderCall}
    (hcall : reader.advance call = .ok next) : reader.attempt call = next := by
  rw [advance_eq, read] at hcall
  split at hcall
  next value behind hanswer => rw [attempt, hanswer, ← Except.ok.inj hcall]
  next => contradiction

theorem attempt_of_error {reader : BitReader} {call : ReaderCall} {cause : BitError}
    (hcall : reader.advance call = .error cause) : reader.attempt call = reader := by
  rw [advance_eq, read] at hcall
  split at hcall
  next => contradiction
  next hanswer => exact call_of_error (congrArg Prod.fst hanswer)

/-- A call stays in the word. -/
theorem attempt_spec {reader : BitReader} (hposition : reader.position ≤ 64)
    (call : ReaderCall) :
    (reader.attempt call).word = reader.word ∧ (reader.attempt call).position ≤ 64 := by
  rcases advance_cases hposition call with ⟨-, hcall⟩ | ⟨hroom, hcall⟩
  · rw [attempt_of_error hcall]
    exact ⟨rfl, hposition⟩
  · rw [attempt_of_ok hcall]
    exact ⟨rfl, hroom⟩

theorem run_spec {reader : BitReader} (hposition : reader.position ≤ 64)
    (calls : List ReaderCall) :
    (reader.run calls).word = reader.word ∧ (reader.run calls).position ≤ 64 := by
  induction calls generalizing reader with
  | nil => exact ⟨rfl, hposition⟩
  | cons call rest ih =>
    obtain ⟨hword, hnext⟩ := attempt_spec hposition call
    obtain ⟨hlast, hle⟩ := ih hnext
    exact ⟨hlast.trans hword, hle⟩

/-- What a reader answers to a call. One that fails does not move it, and one that succeeds
moves it by the width. -/
structure Answers (reader : BitReader) (call : ReaderCall) : Prop where
  fails_iff : (∃ cause, reader.advance call = .error cause) ↔
    64 - reader.position < call.width
  unchanged : ∀ cause, reader.advance call = .error cause → reader.attempt call = reader
  moves : ∀ next, reader.advance call = .ok next →
    next.word = reader.word ∧ next.position = reader.position + call.width

theorem answers_of_le {reader : BitReader} (hposition : reader.position ≤ 64)
    (call : ReaderCall) : reader.Answers call := by
  have hunchanged : ∀ cause, reader.advance call = .error cause →
      reader.attempt call = reader := fun _ => attempt_of_error
  rcases advance_cases hposition call with ⟨hroom, hcall⟩ | ⟨hroom, hcall⟩
  · refine ⟨iff_of_true ⟨_, hcall⟩ hroom, hunchanged, ?_⟩
    rw [hcall]
    nofun
  · refine ⟨iff_of_false ?_ (by omega), hunchanged, ?_⟩
    · rw [hcall]
      nofun
    · intro next hnext
      rw [hcall] at hnext
      rw [← Except.ok.inj hnext]
      exact ⟨rfl, rfl⟩

/-- The widths of writes that a word holds are read back to their values. -/
theorem readAll_of_holds {writer : BitWriter} {writes : List Write}
    (hholds : writer.Holds writes) :
    ∃ behind, (ofWord writer.word).readAll (writes.map Write.width) =
        .ok (writes.map Write.value, behind) ∧ behind.remainder = 0 := by
  have hfill := fill_writes_iff.mpr hholds.fits
  have hsum : (writes.map Write.width).sum ≤ 64 := hholds.length_eq ▸ hholds.length_le
  have hroom : (ofWord writer.word).position + (writes.map Write.width).sum ≤ 64 := by
    rwa [ofWord, Nat.zero_add]
  obtain ⟨values, hread, hvalues, hpacked⟩ := readAll_of_le hroom
  have hempty : writer.word.toNat / 2 ^ (writes.map Write.width).sum = 0 := by
    apply Nat.div_eq_of_lt
    rw [hholds.word_eq]
    exact packed_lt hfill
  simp only [ofWord, Nat.zero_add, Nat.pow_zero, Nat.div_one, hempty, Nat.mul_zero,
    Nat.add_zero] at hread hpacked
  obtain rfl : values = writes.map Write.value := by
    apply packed_injective hvalues hfill
    rw [← hpacked, hholds.word_eq]
  refine ⟨_, hread, ?_⟩
  rw [← UInt64.toNat_inj, toNat_remainder]
  exact hempty

/-- Values read from a word can be written again, and with what was not read they give the word
back. -/
theorem exists_writeAll_of_readAll (word : UInt64) {widths : List Nat}
    (hsum : widths.sum ≤ 64) :
    ∃ (writes : List Write) (behind : BitReader) (writer : BitWriter),
      writes.map Write.width = widths ∧
      (ofWord word).readAll widths = .ok (writes.map Write.value, behind) ∧
      BitWriter.empty.writeAll writes = .ok writer ∧
      word.toNat = writer.word.toNat + behind.remainder.toNat * 2 ^ widths.sum ∧
      (widths.sum = 64 → behind.remainder = 0) := by
  have hroom : (ofWord word).position + widths.sum ≤ 64 := by
    rwa [ofWord, Nat.zero_add]
  obtain ⟨values, hread, hfill, hpacked⟩ := readAll_of_le hroom
  obtain ⟨writes, rfl, rfl⟩ := exists_writes hfill.length_eq
  have hempty : BitWriter.empty.length + (writes.map Write.width).sum ≤ 64 := by
    rwa [BitWriter.empty, Nat.zero_add]
  obtain ⟨writer, hwrites⟩ :=
    BitWriter.exists_writeAll BitWriter.empty_valid hempty (fill_writes_iff.mp hfill)
  have hholds := BitWriter.holds_of_writeAll hwrites
  refine ⟨writes, _, writer, rfl, hread, hwrites, ?_, ?_⟩
  · rw [toNat_remainder, hholds.word_eq, Nat.mul_comm]
    simpa [ofWord] using hpacked
  · intro hfull
    simp [remainder, ofWord, hfull]

/-- Writes that all succeed are read back and leave nothing; values that are read can be written
again and give the word back, with what was not read above them. After any calls to a reader, the
next one fails exactly for want of bits, and the remainder is the word without the bits that have
been passed. -/
theorem reading_inverts_writing :
    (∀ writes writer, BitWriter.empty.writeAll writes = .ok writer →
      ∃ behind, (ofWord writer.word).readAll (writes.map Write.width) =
        .ok (writes.map Write.value, behind) ∧ behind.remainder = 0) ∧
    (∀ (word : UInt64) (widths : List Nat), widths.sum ≤ 64 →
      ∃ (writes : List Write) (behind : BitReader) (writer : BitWriter),
        writes.map Write.width = widths ∧
        (ofWord word).readAll widths = .ok (writes.map Write.value, behind) ∧
        BitWriter.empty.writeAll writes = .ok writer ∧
        word.toNat = writer.word.toNat + behind.remainder.toNat * 2 ^ widths.sum ∧
        (widths.sum = 64 → behind.remainder = 0)) ∧
    ∀ (word : UInt64) (calls : List ReaderCall),
      ((ofWord word).run calls).position ≤ 64 ∧
      ((ofWord word).run calls).remainder.toNat =
        word.toNat / 2 ^ ((ofWord word).run calls).position ∧
      ∀ call, ((ofWord word).run calls).Answers call := by
  refine ⟨?_, ?_, ?_⟩
  · intro writes writer hwrites
    exact readAll_of_holds (BitWriter.holds_of_writeAll hwrites)
  · intro word widths hsum
    exact exists_writeAll_of_readAll word hsum
  · intro word calls
    have hstart : (ofWord word).position ≤ 64 := Nat.zero_le 64
    obtain ⟨hword, hposition⟩ := run_spec hstart calls
    refine ⟨hposition, ?_, answers_of_le hposition⟩
    rw [toNat_remainder, hword]
    rfl

/-- Values of no bits stand between others and behind the last bit of the word; a word is read in
one piece of 64 bits. -/
theorem reading_inverts_writing_in_full_word :
    (∃ (writer : BitWriter) (behind : BitReader),
      BitWriter.empty.writeAll [⟨5, 3⟩, ⟨0, 0⟩, ⟨0x1FFFFFFFFFFFFFFF, 61⟩, ⟨0, 0⟩] =
        .ok writer ∧
      (ofWord writer.word).readAll [3, 0, 61, 0] =
        .ok ([5, 0, 0x1FFFFFFFFFFFFFFF, 0], behind) ∧
      behind.remainder = 0) ∧
    ∃ (writes : List Write) (behind : BitReader) (writer : BitWriter),
      writes.map Write.width = [64, 0] ∧
      (ofWord 0x8000000000000001).readAll [64, 0] =
        .ok (writes.map Write.value, behind) ∧
      BitWriter.empty.writeAll writes = .ok writer ∧ behind.remainder = 0 := by
  obtain ⟨hwritten, hread, -⟩ := reading_inverts_writing
  constructor
  · have hwrites : BitWriter.empty.writeAll
        [⟨5, 3⟩, ⟨0, 0⟩, ⟨0x1FFFFFFFFFFFFFFF, 61⟩, ⟨0, 0⟩] =
          .ok ⟨0xFFFFFFFFFFFFFFFD, 64⟩ := by decide
    obtain ⟨behind, hback, hrest⟩ := hwritten _ _ hwrites
    exact ⟨_, behind, hwrites, hback, hrest⟩
  · obtain ⟨writes, behind, writer, hwidths, hvalues, hwrites, -, hfull⟩ :=
      hread 0x8000000000000001 [64, 0] (by decide)
    exact ⟨writes, behind, writer, hwidths, hvalues, hwrites, hfull rfl⟩

end BitReader

end CommandWord
