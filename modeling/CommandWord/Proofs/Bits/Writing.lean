import CommandWord.Proofs.Bits.Packing

/-!
Runs of a writer. A call that fails changes nothing, so after any calls the writer holds the
writes that succeeded, one above the other: its length is the sum of their widths and its word
the sum of their values, each at the bit where its write began. What the next call does depends
on the length alone: room is asked for first, then the value.
-/

namespace CommandWord

/-- A value to be written, and the number of bits it is given. -/
structure Write where
  value : UInt64
  width : Nat
  deriving DecidableEq

/-- Widths and as many values make up a list of writes. -/
theorem exists_writes {widths : List Nat} {values : List UInt64}
    (hlength : widths.length = values.length) :
    ∃ writes : List Write, writes.map Write.width = widths ∧
      writes.map Write.value = values := by
  induction widths generalizing values with
  | nil =>
    obtain rfl := List.length_eq_zero_iff.mp hlength.symm
    exact ⟨[], rfl, rfl⟩
  | cons width widths ih =>
    cases values with
    | nil => simp at hlength
    | cons value values =>
      obtain ⟨writes, rfl, rfl⟩ := ih (by simpa using hlength)
      exact ⟨⟨value, width⟩ :: writes, rfl, rfl⟩

/-- The number that writes spell is the sum of their values, each above the widths before it. -/
theorem packed_writes_eq_sum (writes : List Write) :
    packed (writes.map Write.width) (writes.map Write.value) =
      ∑ i : Fin writes.length,
        writes[i].value.toNat * 2 ^ ((writes.take i).map Write.width).sum := by
  rw [packed_eq_sum (by rw [List.length_map, List.length_map])]
  apply Fintype.sum_equiv (finCongr (List.length_map Write.value))
  intro i
  simp [List.map_take]

theorem fill_writes_iff {writes : List Write} :
    Fill (writes.map Write.width) (writes.map Write.value) ↔
      ∀ write ∈ writes, write.value.toNat < 2 ^ write.width := by
  rw [Fill, List.forall₂_map_left_iff, List.forall₂_map_right_iff, List.forall₂_same]

namespace BitWriter

/-- The writer after calls of which any may fail. -/
def run (writer : BitWriter) : List Write → BitWriter
  | [] => writer
  | call :: rest => (writer.attempt call.value call.width).run rest

/-- The calls that succeed when they are made in this order. -/
def written (writer : BitWriter) : List Write → List Write
  | [] => []
  | call :: rest =>
      match writer.write call.value call.width with
      | .ok next => call :: next.written rest
      | .error _ => writer.written rest

theorem write_of_lt_width {writer : BitWriter} {width : Nat} (value : UInt64)
    (hroom : 64 - writer.length < width) :
    writer.write value width = .error (.insufficientBits width (64 - writer.length)) := by
  rw [write_eq, if_pos hroom]

theorem attempt_of_ok {writer next : BitWriter} {value : UInt64} {width : Nat}
    (hwrite : writer.write value width = .ok next) : writer.attempt value width = next := by
  unfold write at hwrite
  split at hwrite
  next hcall => rw [attempt, hcall, ← Except.ok.inj hwrite]
  next => contradiction

theorem attempt_of_error {writer : BitWriter} {value : UInt64} {width : Nat} {cause : BitError}
    (hwrite : writer.write value width = .error cause) : writer.attempt value width = writer := by
  unfold write at hwrite
  split at hwrite
  next => contradiction
  next hcall => exact call_of_error (congrArg Prod.fst hcall)

/-- The writer holds these writes, the first one lowest, and nothing else. -/
structure Holds (writer : BitWriter) (writes : List Write) : Prop where
  length_le : writer.length ≤ 64
  length_eq : writer.length = (writes.map Write.width).sum
  fits : ∀ write ∈ writes, write.value.toNat < 2 ^ write.width
  word_eq : writer.word.toNat = packed (writes.map Write.width) (writes.map Write.value)

theorem holds_nil : empty.Holds [] :=
  ⟨by decide, rfl, nofun, rfl⟩

theorem Holds.valid {writer : BitWriter} {writes : List Write} (hholds : writer.Holds writes) :
    writer.Valid := by
  have hlt := packed_lt (fill_writes_iff.mpr hholds.fits)
  rw [← hholds.word_eq, ← hholds.length_eq] at hlt
  exact ⟨hholds.length_le, hlt⟩

/-- Everything a write can do to a valid writer. -/
theorem write_cases {writer : BitWriter} (hvalid : writer.Valid) (value : UInt64) (width : Nat) :
    (64 - writer.length < width ∧
      writer.write value width = .error (.insufficientBits width (64 - writer.length))) ∨
    (width ≤ 64 - writer.length ∧ 2 ^ width ≤ value.toNat ∧
      writer.write value width = .error (.valueTooWide value width)) ∨
    (width ≤ 64 - writer.length ∧ value.toNat < 2 ^ width ∧
      ∃ next, writer.write value width = .ok next ∧
        next.length = writer.length + width ∧
        next.word.toNat = writer.word.toNat + 2 ^ writer.length * value.toNat) := by
  have hlength := hvalid.length_le
  by_cases hroom : 64 - writer.length < width
  · exact Or.inl ⟨hroom, write_of_lt_width value hroom⟩
  · have hle : width ≤ 64 - writer.length := by omega
    have hsum : writer.length + width ≤ 64 := by omega
    by_cases hvalue : value.toNat < 2 ^ width
    · obtain ⟨next, hwrite, -, hnext, hword⟩ := write_of_lt hvalid hsum hvalue
      exact Or.inr (Or.inr ⟨hle, hvalue, next, hwrite, hnext, hword⟩)
    · have hover : 2 ^ width ≤ value.toNat := by omega
      exact Or.inr (Or.inl ⟨hle, hover, write_of_le hsum hover⟩)

/-- A write that succeeds adds itself above what the writer holds. -/
theorem Holds.write {writer next : BitWriter} {writes : List Write} {call : Write}
    (hholds : writer.Holds writes) (hwrite : writer.write call.value call.width = .ok next) :
    next.Holds (writes ++ [call]) := by
  rcases write_cases hholds.valid call.value call.width with
    ⟨-, herror⟩ | ⟨-, -, herror⟩ | ⟨hroom, hvalue, other, hother, hlength, hword⟩
  · rw [herror] at hwrite
    contradiction
  · rw [herror] at hwrite
    contradiction
  · obtain rfl := Except.ok.inj (hother.symm.trans hwrite)
    have hle := hholds.length_le
    refine ⟨by omega, ?_, ?_, ?_⟩
    · rw [hlength, hholds.length_eq, List.map_append, List.sum_append]
      simp
    · intro write hmem
      rcases List.mem_append.mp hmem with hold | hnew
      · exact hholds.fits write hold
      · obtain rfl := List.mem_singleton.mp hnew
        exact hvalue
    · rw [hword, hholds.word_eq, hholds.length_eq, List.map_append, List.map_append,
        packed_append (by rw [List.length_map, List.length_map])]
      simp [packed]

/-- A run adds the calls that succeed. -/
theorem Holds.run {writer : BitWriter} {writes : List Write} (hholds : writer.Holds writes)
    (calls : List Write) : (writer.run calls).Holds (writes ++ writer.written calls) := by
  induction calls generalizing writer writes with
  | nil =>
    rw [written, List.append_nil]
    exact hholds
  | cons call rest ih =>
    rw [BitWriter.run, written]
    cases hwrite : writer.write call.value call.width with
    | ok next =>
      have hnext := ih (hholds.write hwrite)
      rw [List.append_assoc, List.singleton_append] at hnext
      rw [attempt_of_ok hwrite]
      exact hnext
    | error cause =>
      rw [attempt_of_error hwrite]
      exact ih hholds

/-- The writer after writes that must all succeed. -/
def writeAll (writer : BitWriter) : List Write → Except BitError BitWriter
  | [] => .ok writer
  | write :: rest =>
      match writer.write write.value write.width with
      | .ok next => next.writeAll rest
      | .error cause => .error cause

/-- Where all writes succeed, a run ends in the same writer and has written each of them. -/
theorem run_of_writeAll {writer last : BitWriter} {writes : List Write}
    (hwrites : writer.writeAll writes = .ok last) :
    writer.run writes = last ∧ writer.written writes = writes := by
  induction writes generalizing writer with
  | nil => exact ⟨Except.ok.inj hwrites, rfl⟩
  | cons write rest ih =>
    rw [writeAll] at hwrites
    rw [run, written]
    cases hwrite : writer.write write.value write.width with
    | ok next =>
      rw [hwrite] at hwrites
      obtain ⟨hrun, hwritten⟩ := ih hwrites
      rw [attempt_of_ok hwrite]
      exact ⟨hrun, congrArg (List.cons write) hwritten⟩
    | error cause =>
      rw [hwrite] at hwrites
      contradiction

theorem holds_of_writeAll {writer : BitWriter} {writes : List Write}
    (hwrites : empty.writeAll writes = .ok writer) : writer.Holds writes := by
  have hholds := holds_nil.run writes
  obtain ⟨hrun, hwritten⟩ := run_of_writeAll hwrites
  rwa [hrun, hwritten] at hholds

theorem exists_writeAll {writer : BitWriter} (hvalid : writer.Valid) {writes : List Write}
    (hroom : writer.length + (writes.map Write.width).sum ≤ 64)
    (hfits : ∀ write ∈ writes, write.value.toNat < 2 ^ write.width) :
    ∃ last, writer.writeAll writes = .ok last := by
  induction writes generalizing writer with
  | nil => exact ⟨writer, rfl⟩
  | cons write rest ih =>
    rw [List.map_cons, List.sum_cons] at hroom
    obtain ⟨hfirst, hrest⟩ := List.forall_mem_cons.mp hfits
    obtain ⟨next, hwrite, hnext, hlength, -⟩ :=
      write_of_lt hvalid (by omega : writer.length + write.width ≤ 64) hfirst
    rw [writeAll, hwrite]
    exact ih hnext (by omega) hrest

/-- What a writer answers to a call: first whether there is room, then whether the value fits.
A call that fails leaves the writer as it was. -/
structure Answers (writer : BitWriter) (value : UInt64) (width : Nat) : Prop where
  noRoom : writer.write value width = .error (.insufficientBits width (64 - writer.length)) ↔
    64 - writer.length < width
  tooWide : writer.write value width = .error (.valueTooWide value width) ↔
    width ≤ 64 - writer.length ∧ 2 ^ width ≤ value.toNat
  succeeds : (∃ next, writer.write value width = .ok next) ↔
    width ≤ 64 - writer.length ∧ value.toNat < 2 ^ width
  unchanged : ∀ cause, writer.write value width = .error cause →
    writer.attempt value width = writer

theorem Valid.answers {writer : BitWriter} (hvalid : writer.Valid) (value : UInt64)
    (width : Nat) : writer.Answers value width := by
  have hunchanged : ∀ cause, writer.write value width = .error cause →
      writer.attempt value width = writer := fun _ => attempt_of_error
  rcases write_cases hvalid value width with
    ⟨hroom, hwrite⟩ | ⟨hroom, hvalue, hwrite⟩ | ⟨hroom, hvalue, next, hwrite, -⟩
  · refine ⟨iff_of_true hwrite hroom, iff_of_false ?_ (by omega), iff_of_false ?_ (by omega),
      hunchanged⟩
    · rw [hwrite]
      nofun
    · rw [hwrite]
      nofun
  · refine ⟨iff_of_false ?_ (by omega), iff_of_true hwrite ⟨hroom, hvalue⟩,
      iff_of_false ?_ (by omega), hunchanged⟩
    · rw [hwrite]
      nofun
    · rw [hwrite]
      nofun
  · refine ⟨iff_of_false ?_ (by omega), iff_of_false ?_ (by omega),
      iff_of_true ⟨next, hwrite⟩ ⟨hroom, hvalue⟩, hunchanged⟩
    · rw [hwrite]
      nofun
    · rw [hwrite]
      nofun

/-- After any calls at most 64 bits are written and no others are set; length and word are those
of the calls that succeeded, and every further call is answered by room and value alone. -/
theorem run_accounts_for_calls (calls : List Write) :
    (empty.run calls).length ≤ 64 ∧
    (empty.run calls).word.toNat < 2 ^ (empty.run calls).length ∧
    (empty.run calls).length = ((empty.written calls).map Write.width).sum ∧
    (empty.run calls).word.toNat =
      ∑ i : Fin (empty.written calls).length, (empty.written calls)[i].value.toNat *
        2 ^ (((empty.written calls).take i).map Write.width).sum ∧
    ∀ value width, (empty.run calls).Answers value width := by
  have hholds : (empty.run calls).Holds (empty.written calls) := holds_nil.run calls
  have hvalid := hholds.valid
  refine ⟨hvalid.length_le, hvalid.word_lt, hholds.length_eq, ?_, hvalid.answers⟩
  rw [hholds.word_eq, packed_writes_eq_sum]

/-- A full word refuses one bit more and still takes a value of no bits. -/
example : empty.run [⟨5, 3⟩, ⟨9, 3⟩, ⟨0x1FFFFFFFFFFFFFFF, 61⟩, ⟨1, 1⟩, ⟨0, 0⟩] =
    ⟨0xFFFFFFFFFFFFFFFD, 64⟩ := by
  decide

end BitWriter

end CommandWord
