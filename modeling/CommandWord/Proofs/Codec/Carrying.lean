import CommandWord.Codec.Decoding
import CommandWord.Proofs.Bits.Writing
import CommandWord.Proofs.Codec.Entries

/-!
Raw values as carriers of messages. A raw value carries fields for an entry when it is the code
and, above it, the number that the fields spell. Packing makes exactly the raw value that
carries its fields, and unpacking finds the fields that a raw value carries, if it carries any.
-/

namespace CommandWord

/-- The raw value is the code of the header with the fields packed above it. -/
structure Entry.Carries (entry : Entry) (fields : List UInt64) (raw : UInt64) : Prop where
  fill : Fill entry.command.fields fields
  toNat_eq : raw.toNat = entry.header.code.toNat +
    2 ^ entry.header.length * packed entry.command.fields fields

namespace Command

/-- Packing is writing the values in order, with the faults told as those of fields. -/
theorem packFrom_eq_ok_iff (command : Command) {writer last : BitWriter} {writes : List Write}
    (field : Nat) :
    packFrom command writer field ((writes.map Write.width).zip (writes.map Write.value)) =
      .ok last ↔ writer.writeAll writes = .ok last := by
  induction writes generalizing writer field with
  | nil => simp [packFrom, BitWriter.writeAll]
  | cons write rest ih =>
    rw [List.map_cons, List.map_cons, List.zip_cons_cons, packFrom, BitWriter.writeAll]
    cases hwrite : writer.write write.value write.width with
    | ok next => exact ih (field + 1)
    | error cause => cases cause <;> simp

/-- Values that fill the fields have a payload, the number they spell. -/
theorem pack_of_fill {command : Command} (hroom : command.fields.sum ≤ 64)
    {values : List UInt64} (hfill : Fill command.fields values) :
    ∃ payload, command.pack values = .ok payload ∧
      payload.toNat = packed command.fields values := by
  obtain ⟨writes, hwidths, rfl⟩ := exists_writes hfill.length_eq
  rw [← hwidths] at hroom hfill
  have hempty : BitWriter.empty.length + (writes.map Write.width).sum ≤ 64 := by
    simpa [BitWriter.empty] using hroom
  obtain ⟨last, hlast⟩ :=
    BitWriter.exists_writeAll BitWriter.empty_valid hempty (fill_writes_iff.mp hfill)
  have hpack := (command.packFrom_eq_ok_iff 0).mpr hlast
  refine ⟨last.word, ?_, ?_⟩
  · rw [pack, ← hwidths, if_neg (not_not.mpr hfill.length_eq.symm), hpack]
    rfl
  · rw [(BitWriter.holds_of_writeAll hlast).word_eq, hwidths]

theorem fill_of_pack {command : Command} {values : List UInt64} {payload : UInt64}
    (hpack : command.pack values = .ok payload) : Fill command.fields values := by
  rw [pack] at hpack
  split at hpack
  · contradiction
  next hlength =>
    obtain ⟨writes, hwidths, rfl⟩ := exists_writes (not_not.mp hlength).symm
    rw [← hwidths] at hpack ⊢
    cases hlast : packFrom command .empty 0
        ((writes.map Write.width).zip (writes.map Write.value)) with
    | error cause =>
      rw [hlast] at hpack
      contradiction
    | ok last =>
      have hwrites := (command.packFrom_eq_ok_iff 0).mp hlast
      exact fill_writes_iff.mpr (BitWriter.holds_of_writeAll hwrites).fits

end Command

theorem Header.toNat_place {header : Header} {payload : UInt64} {bits : Nat}
    (hroom : header.length + bits ≤ 64) (hpayload : payload.toNat < 2 ^ bits)
    (hcode : header.code.toNat < 2 ^ header.length) :
    (header.place payload).toNat =
      header.code.toNat + 2 ^ header.length * payload.toNat := by
  unfold place
  split
  next hfull =>
    have hzero : payload.toNat = 0 := by
      rw [show bits = 0 by omega] at hpayload
      omega
    simp [hzero]
  next hpart =>
    rw [UInt64.or_comm]
    exact BitWriter.toNat_or_shiftLeft hcode hpayload (by omega) hroom

namespace Entry

variable {entry : Entry} {totalBits : Nat} {fields : List UInt64} {raw : UInt64}

theorem Sound.code_lt (hsound : entry.Sound totalBits) (hword : totalBits ≤ 64) :
    entry.header.code.toNat + 1 < 2 ^ entry.header.length := by
  have hroom := hsound.room
  exact (Header.isUsable_iff (by omega)).mp hsound.usable

theorem Sound.length_pos (hsound : entry.Sound totalBits) (hword : totalBits ≤ 64) :
    0 < entry.header.length :=
  Header.length_pos_of_lt (hsound.code_lt hword)

theorem Sound.sum_fields_lt (hsound : entry.Sound totalBits) (hword : totalBits ≤ 64) :
    entry.command.fields.sum < totalBits := by
  have hroom := hsound.room
  have hlength := hsound.length_pos hword
  omega

/-- No field values make up for the bit that a usable code leaves clear. -/
theorem Sound.carries_lt (hsound : entry.Sound totalBits) (hword : totalBits ≤ 64)
    (hcarries : entry.Carries fields raw) : raw.toNat + 1 < 2 ^ totalBits := by
  have hcode := hsound.code_lt hword
  have hpayload := packed_lt hcarries.fill
  have hall : 2 ^ entry.header.length * (packed entry.command.fields fields + 1) ≤
      2 ^ entry.header.length * 2 ^ entry.command.fields.sum := Nat.mul_le_mul_left _ hpayload
  have hpow : 2 ^ (entry.header.length + entry.command.fields.sum) ≤ 2 ^ totalBits :=
    Nat.pow_le_pow_right (by omega) hsound.room
  rw [Nat.mul_add, ← Nat.pow_add] at hall
  rw [hcarries.toNat_eq]
  omega

theorem Sound.matches_of_carries (hsound : entry.Sound totalBits) (hword : totalBits ≤ 64)
    (hcarries : entry.Carries fields raw) : entry.header.Matches raw := by
  have hcode := hsound.code_lt hword
  rw [Header.matches_iff, hcarries.toNat_eq, Nat.add_mul_mod_self_left]
  exact Nat.mod_eq_of_lt (by omega)

/-- A raw value carries at most one list of fields for an entry. -/
theorem Carries.fields_unique {others : List UInt64} (hfirst : entry.Carries fields raw)
    (hsecond : entry.Carries others raw) : fields = others := by
  have hsum := hfirst.toNat_eq.symm.trans hsecond.toNat_eq
  have hpacked := Nat.eq_of_mul_eq_mul_left (Nat.two_pow_pos _) (Nat.add_left_cancel hsum)
  exact packed_injective hfirst.fill hsecond.fill hpacked

/-- Nothing is left above fields that a raw value carries. -/
theorem Sound.div_eq_zero_of_carries (hsound : entry.Sound totalBits) (hword : totalBits ≤ 64)
    (hcarries : entry.Carries fields raw) :
    raw.toNat / 2 ^ (entry.header.length + entry.command.fields.sum) = 0 := by
  have hroom := hsound.room
  have htight : entry.Sound (entry.header.length + entry.command.fields.sum) :=
    ⟨Nat.le_refl _, hsound.usable⟩
  have hlt := htight.carries_lt (by omega) hcarries
  exact Nat.div_eq_of_lt (by omega)

/-- A raw value that matches the header and has nothing above the payload carries the digits
that stand between them. -/
theorem carries_of_matches (hmatches : entry.header.Matches raw)
    (hfill : Fill entry.command.fields fields)
    (hnumber : raw.toNat / 2 ^ entry.header.length = packed entry.command.fields fields +
      2 ^ entry.command.fields.sum *
        (raw.toNat / 2 ^ (entry.header.length + entry.command.fields.sum)))
    (hzero : raw.toNat / 2 ^ (entry.header.length + entry.command.fields.sum) = 0) :
    entry.Carries fields raw := by
  have hsplit := Nat.mod_add_div raw.toNat (2 ^ entry.header.length)
  rw [Header.matches_iff.mp hmatches, hnumber, hzero, Nat.mul_zero, Nat.add_zero] at hsplit
  exact ⟨hfill, hsplit.symm⟩

/-- Unpacking stays within the word. It yields the fields that the raw value carries, or else
leaves something above them. -/
theorem Sound.unpack_eq (hsound : entry.Sound totalBits) (hword : totalBits ≤ 64)
    (hmatches : entry.header.Matches raw) :
    ∃ values behind, Codec.unpack entry raw = .ok (values, behind) ∧
      ∀ fields, entry.Carries fields raw ↔ behind.remainder = 0 ∧ fields = values := by
  have hroom := hsound.room
  have hskip : (BitReader.ofWord raw).position + entry.header.length ≤ 64 := by
    simp only [BitReader.ofWord]
    omega
  have hreads : (BitReader.mk raw entry.header.length).position +
      entry.command.fields.sum ≤ 64 := by
    simp only
    omega
  obtain ⟨values, hread, hfill, hnumber⟩ := BitReader.readAll_of_le hreads
  refine ⟨values, ⟨raw, entry.header.length + entry.command.fields.sum⟩, ?_, ?_⟩
  · rw [Codec.unpack, BitReader.skip_of_le hskip]
    simp only [BitReader.ofWord, Nat.zero_add, bind, Except.bind]
    exact hread
  intro fields
  have hclear : ∀ {others : List UInt64}, entry.Carries others raw →
      raw.toNat / 2 ^ (entry.header.length + entry.command.fields.sum) = 0 :=
    hsound.div_eq_zero_of_carries hword
  have hcarries : raw.toNat / 2 ^ (entry.header.length + entry.command.fields.sum) = 0 →
      entry.Carries values raw := carries_of_matches hmatches hfill hnumber
  rw [← UInt64.toNat_inj, BitReader.toNat_remainder]
  constructor
  · intro hfields
    exact ⟨hclear hfields, hfields.fields_unique (hcarries (hclear hfields))⟩
  · rintro ⟨hzero, rfl⟩
    exact hcarries hzero

end Entry

namespace Codec

variable {codec : Codec} {entry : Entry} {fields : List UInt64} {raw : UInt64}

theorem rawValue_of_fill {id : Nat} (hentry : codec.entry? id = some entry)
    (hfill : Fill entry.command.fields fields) :
    ∃ raw, codec.rawValue ⟨id, fields⟩ = .ok raw ∧ entry.Carries fields raw := by
  have hsound := entry_sound hentry
  have hroom := hsound.room
  have hword := codec.totalBits_le
  have hcode := hsound.code_lt hword
  obtain ⟨payload, hpack, hpayload⟩ := Command.pack_of_fill (by omega) hfill
  have hplace : (entry.header.place payload).toNat =
      entry.header.code.toNat + 2 ^ entry.header.length * payload.toNat := by
    have hlt := packed_lt hfill
    rw [← hpayload] at hlt
    exact Header.toNat_place (by omega) hlt (by omega)
  refine ⟨entry.header.place payload, ?_, hfill, ?_⟩
  · simp only [rawValue, hentry, hpack]
    rfl
  · rw [hplace, hpayload]

/-- The raw value of a message is the one that carries its fields. -/
theorem rawValue_eq_ok_iff {id : Nat} (hentry : codec.entry? id = some entry) :
    codec.rawValue ⟨id, fields⟩ = .ok raw ↔ entry.Carries fields raw := by
  constructor
  · intro hraw
    have hfill : Fill entry.command.fields fields := by
      simp only [rawValue, hentry] at hraw
      cases hpack : entry.command.pack fields with
      | error cause =>
        rw [hpack] at hraw
        contradiction
      | ok payload => exact Command.fill_of_pack hpack
    obtain ⟨other, hother, hcarries⟩ := rawValue_of_fill hentry hfill
    rw [hother] at hraw
    rwa [← Except.ok.inj hraw]
  · intro hcarries
    obtain ⟨other, hother, hcarries'⟩ := rawValue_of_fill hentry hcarries.fill
    rw [hother, UInt64.toNat_inj.mp (hcarries'.toNat_eq.trans hcarries.toNat_eq.symm)]

end Codec

end CommandWord
