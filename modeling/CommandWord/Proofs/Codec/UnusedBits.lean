import CommandWord.Proofs.Codec.Counting
import CommandWord.Proofs.Header.Budget
import CommandWord.Source.Routine
import Mathlib.Tactic.Ring

/-!
The bits that no command uses, counted in three places. A header and a payload leave some bits of
the word over; the report sums them up in 32 bits, the emitted sources ask for zeros from there
on, and decoding refuses a value with one of these bits set. All three agree: in the per-command
layout there are no such bits, and in the uniform layout each command leaves what its payload is
short of the largest.
-/

namespace CommandWord

/-! ### Counting in words -/

/-- As long as the sum stays below the limit, counting in 32 bits is exact. -/
theorem toNat_foldl_add {α : Type} (items : List α) (bits : α → Nat) {start : UInt32}
    (hsum : start.toNat + (items.map bits).sum < 2 ^ 32) :
    (items.foldl (fun sum item => sum + UInt32.ofNat (bits item)) start).toNat =
      start.toNat + (items.map bits).sum := by
  induction items generalizing start with
  | nil => simp
  | cons item rest ih =>
    rw [List.map_cons, List.sum_cons] at hsum ⊢
    have hstep : (start + UInt32.ofNat (bits item)).toNat = start.toNat + bits item := by
      rw [UInt32.toNat_add, UInt32.toNat_ofNat']
      omega
    rw [List.foldl_cons, ih (by omega), hstep, Nat.add_assoc]

namespace Report

/-- `unusedBits`, with no answer where a subtraction has no result. -/
def checkedUnusedBits (report : Report) : Option UInt32 :=
  report.rows.foldlM (fun sum row => do
    let behind ← subtract? report.totalBits row.headerLength
    let unused ← subtract? behind row.payloadBits
    return sum + UInt32.ofNat unused) 0

theorem checkedUnusedBits_eq {report : Report}
    (hroom : ∀ row ∈ report.rows, row.headerLength + row.payloadBits ≤ report.totalBits) :
    report.checkedUnusedBits = some report.unusedBits := by
  unfold checkedUnusedBits unusedBits
  generalize (0 : UInt32) = start
  generalize report.rows = rows at hroom ⊢
  induction rows generalizing start with
  | nil => rfl
  | cons row rest ih =>
    obtain ⟨hrow, hrest⟩ := List.forall_mem_cons.mp hroom
    rw [List.foldlM_cons, subtract?_of_le (by omega), List.foldl_cons]
    simp only [Option.bind_eq_bind, Option.bind_some, subtract?_of_le (by omega :
      row.payloadBits ≤ report.totalBits - row.headerLength)]
    exact ih _ hrest

end Report

/-! ### Padding -/

namespace Entry

variable {entry : Entry} {totalBits : Nat} {fields : List UInt64} {raw : UInt64}

/-- How many bits of the word the emitted decoders hold against zero for this command. -/
def paddingBits (entry : Entry) (totalBits : Nat) : Nat :=
  (entry.paddingStart totalBits).elim 0 (totalBits - ·)

theorem paddingBits_eq (entry : Entry) (totalBits : Nat) :
    entry.paddingBits totalBits =
      totalBits - (entry.header.length + entry.command.payloadBits) := by
  unfold paddingBits paddingStart
  dsimp only
  split
  · rfl
  next hfull =>
    change 0 = _
    omega

/-- A raw value that matches the header carries fields exactly when nothing stands above them. -/
theorem Sound.exists_carries_iff (hsound : entry.Sound totalBits) (hword : totalBits ≤ 64)
    (hmatches : entry.header.Matches raw) :
    (∃ fields, entry.Carries fields raw) ↔
      raw.toNat < 2 ^ (entry.header.length + entry.command.fields.sum) := by
  have hroom := hsound.room
  constructor
  · intro hcarried
    obtain ⟨fields, hcarries⟩ := hcarried
    exact Nat.lt_of_div_eq_zero (Nat.two_pow_pos _) (hsound.div_eq_zero_of_carries hword hcarries)
  · intro hlt
    have hpayload : raw.toNat / 2 ^ entry.header.length < 2 ^ entry.command.fields.sum := by
      apply Nat.div_lt_of_lt_mul
      rwa [← Nat.pow_add]
    obtain ⟨fields, hfill, hpacked⟩ := exists_packed_eq (by omega) hpayload
    refine ⟨fields, hfill, ?_⟩
    rw [hpacked, ← Header.matches_iff.mp hmatches]
    exact (Nat.mod_add_div _ _).symm

end Entry

namespace Codec

variable {codec : Codec} {entry : Entry} {value : UInt64} {position : Nat}

/-- The padding that the emitted decoders ask for, over all commands. -/
def paddingBits (codec : Codec) : Nat :=
  (codec.entries.map fun entry => entry.paddingBits codec.totalBits).sum

/-- A position above the header of the command at which decoding insists on a zero: a value that
matches the header is refused when its raw value has a one there. -/
structure MustBeClear (codec : Codec) (entry : Entry) (position : Nat) : Prop where
  above : entry.header.length ≤ position
  below : position < codec.totalBits
  refused : ∀ value, entry.header.Matches (codec.unwrap value) →
    (codec.unwrap value).toNat.testBit position →
    codec.decode value = .error (.decodeMismatch value)

theorem exists_decode_iff (hmem : entry ∈ codec.entries) (hfits : Fits value codec.totalBits)
    (hmatches : entry.header.Matches (codec.unwrap value)) :
    (∃ fields, codec.decode value = .ok ⟨entry.id, fields⟩) ↔
      (codec.unwrap value).toNat < 2 ^ (entry.header.length + entry.command.fields.sum) := by
  rw [← (sound_of_mem hmem).exists_carries_iff codec.totalBits_le hmatches]
  have hentry := mem_entries_iff.mp hmem
  constructor
  · intro hdecoded
    obtain ⟨fields, hdecode⟩ := hdecoded
    obtain ⟨-, other, hother, hcarries⟩ := decode_eq_ok_iff.mp hdecode
    obtain rfl : entry = other := Option.some.inj (hentry.symm.trans hother)
    exact ⟨fields, hcarries⟩
  · intro hcarried
    obtain ⟨fields, hcarries⟩ := hcarried
    exact ⟨fields, decode_eq_ok_iff.mpr ⟨hfits, entry, hentry, hcarries⟩⟩

/-- Below the end of the payload a one can stand: the code with this one bit above it is a value
of the command. -/
theorem exists_decode_of_testBit (hmem : entry ∈ codec.entries)
    (habove : entry.header.length ≤ position)
    (hpayload : position < entry.header.length + entry.command.fields.sum) :
    ∃ value fields, entry.header.Matches (codec.unwrap value) ∧
      (codec.unwrap value).toNat.testBit position ∧
      codec.decode value = .ok ⟨entry.id, fields⟩ := by
  have hsound := sound_of_mem hmem
  have hword := codec.totalBits_le
  have hroom := hsound.room
  have hcode := hsound.code_lt hword
  have hlow : 2 ^ entry.header.length ≤ 2 ^ position := Nat.pow_le_pow_right (by omega) habove
  have hhigh : 2 ^ (position + 1) ≤ 2 ^ (entry.header.length + entry.command.fields.sum) :=
    Nat.pow_le_pow_right (by omega) hpayload
  have hlimit : 2 ^ (entry.header.length + entry.command.fields.sum) ≤ 2 ^ codec.totalBits :=
    Nat.pow_le_pow_right (by omega) hroom
  have hwide : 2 ^ codec.totalBits ≤ 2 ^ 64 := Nat.pow_le_pow_right (by omega) hword
  rw [Nat.pow_succ] at hhigh
  have hnumber : (UInt64.ofNat (2 ^ position + entry.header.code.toNat)).toNat =
      2 ^ position + entry.header.code.toNat := by
    rw [UInt64.toNat_ofNat']
    exact Nat.mod_eq_of_lt (by omega)
  generalize UInt64.ofNat (2 ^ position + entry.header.code.toNat) = raw at hnumber
  have hmatches : entry.header.Matches raw := by
    rw [Header.matches_iff, hnumber, Nat.add_mod,
      Nat.mod_eq_zero_of_dvd (Nat.pow_dvd_pow 2 habove), Nat.zero_add, Nat.mod_mod,
      Nat.mod_eq_of_lt (by omega)]
  have hbit : raw.toNat.testBit position := by
    rw [hnumber, Nat.testBit_two_pow_add_eq, Nat.testBit_lt_two_pow (by omega)]
    rfl
  obtain ⟨fields, hcarries⟩ := (hsound.exists_carries_iff hword hmatches).mpr (by omega)
  have hraw := hsound.carries_lt hword hcarries
  have hunwrap : codec.unwrap (codec.wrap raw) = raw := unwrap_wrap (by omega)
  refine ⟨codec.wrap raw, fields, ?_, ?_, ?_⟩
  · rwa [hunwrap]
  · rwa [hunwrap]
  · exact decode_eq_ok_iff.mpr ⟨fits_wrap hraw, entry, mem_entries_iff.mp hmem, by rwa [hunwrap]⟩

theorem mustBeClear_iff (hmem : entry ∈ codec.entries) : codec.MustBeClear entry position ↔
    entry.header.length + entry.command.fields.sum ≤ position ∧ position < codec.totalBits := by
  constructor
  · intro hclear
    refine ⟨?_, hclear.below⟩
    by_contra hpayload
    obtain ⟨value, fields, hmatches, hbit, hdecode⟩ :=
      exists_decode_of_testBit hmem hclear.above (Nat.lt_of_not_le hpayload)
    rw [hclear.refused value hmatches hbit] at hdecode
    contradiction
  · intro hbounds
    obtain ⟨hbehind, hbelow⟩ := hbounds
    refine ⟨by omega, hbelow, ?_⟩
    intro value hmatches hbit
    apply decode_of_not_carries hmem hmatches
    intro fields hcarries
    have hlt := ((sound_of_mem hmem).exists_carries_iff codec.totalBits_le hmatches).mp
      ⟨fields, hcarries⟩
    have hpow : 2 ^ (entry.header.length + entry.command.fields.sum) ≤ 2 ^ position :=
      Nat.pow_le_pow_right (by omega) hbehind
    rw [Nat.testBit_lt_two_pow (by omega)] at hbit
    contradiction

/-- Nothing but these positions is asked of a value that matches the header. -/
theorem exists_decode_iff_clear (hmem : entry ∈ codec.entries)
    (hfits : Fits value codec.totalBits)
    (hmatches : entry.header.Matches (codec.unwrap value)) :
    (∃ fields, codec.decode value = .ok ⟨entry.id, fields⟩) ↔
      ∀ position, codec.MustBeClear entry position →
        (codec.unwrap value).toNat.testBit position = false := by
  rw [exists_decode_iff hmem hfits hmatches]
  constructor
  · intro hlt position hclear
    have hpow := Nat.pow_le_pow_right (by omega : 0 < 2) ((mustBeClear_iff hmem).mp hclear).1
    exact Nat.testBit_lt_two_pow (by omega)
  · intro hclear
    apply Nat.lt_pow_two_of_testBit
    intro position hbehind
    by_cases hbelow : position < codec.totalBits
    · exact hclear position ((mustBeClear_iff hmem).mpr ⟨hbehind, hbelow⟩)
    · have hword : (codec.unwrap value).toNat < 2 ^ codec.totalBits := by
        rw [unwrap, toNat_and_lowMask]
        exact Nat.mod_lt _ (Nat.two_pow_pos _)
      have hpow := Nat.pow_le_pow_right (by omega : 0 < 2) (Nat.le_of_not_lt hbelow)
      exact Nat.testBit_lt_two_pow (by omega)

theorem payloadBits_eq_of_mem (hmem : entry ∈ codec.entries) :
    entry.command.payloadBits = entry.command.fields.sum :=
  payloadBits_eq_sum (entry?_eq_some_iff.mp (mem_entries_iff.mp hmem)).2.1

theorem ncard_mustBeClear (hmem : entry ∈ codec.entries) :
    {position | codec.MustBeClear entry position}.ncard = entry.paddingBits codec.totalBits := by
  have hset : {position | codec.MustBeClear entry position} =
      Set.Ico (entry.header.length + entry.command.fields.sum) codec.totalBits :=
    Set.ext fun _ => mustBeClear_iff hmem
  rw [hset, Set.ncard_Ico_nat, Entry.paddingBits_eq, payloadBits_eq_of_mem hmem]

/-! ### The layouts -/

theorem paddingBits_of_perCommand (hlayout : codec.layout = .perCommand)
    (hmem : entry ∈ codec.entries) : entry.paddingBits codec.totalBits = 0 := by
  have hroom := (sound_of_mem hmem).room
  have hlength := length_header_eq (mem_entries_iff.mp hmem)
  rw [hlayout, Layout.headerLength] at hlength
  rw [Entry.paddingBits_eq, payloadBits_eq_of_mem hmem]
  omega

theorem paddingBits_of_uniform (hlayout : codec.layout = .uniform)
    (hmem : entry ∈ codec.entries) :
    entry.paddingBits codec.totalBits =
      largestPayload codec.registry.commands - entry.command.payloadBits := by
  have hroom := (sound_of_mem hmem).room
  have hpos := (sound_of_mem hmem).length_pos codec.totalBits_le
  have hlength := length_header_eq (mem_entries_iff.mp hmem)
  rw [hlayout, Layout.headerLength] at hlength
  rw [Entry.paddingBits_eq, payloadBits_eq_of_mem hmem]
  omega

/-- What the payloads are short of a bound, and the payloads themselves. -/
theorem sum_sub_add_sum {commands : List Command} {largest : Nat}
    (hle : ∀ command ∈ commands, command.payloadBits ≤ largest) :
    (commands.map fun command => largest - command.payloadBits).sum +
      (commands.map Command.payloadBits).sum = commands.length * largest := by
  induction commands with
  | nil => simp
  | cons command rest ih =>
    obtain ⟨hcommand, hrest⟩ := List.forall_mem_cons.mp hle
    have hsum := ih hrest
    rw [List.map_cons, List.sum_cons, List.map_cons, List.sum_cons, List.length_cons,
      Nat.succ_mul]
    omega

theorem paddingBits_eq_zero (hlayout : codec.layout = .perCommand) : codec.paddingBits = 0 := by
  rw [paddingBits, List.sum_eq_zero_iff_forall_eq_nat]
  intro bits hbits
  obtain ⟨entry, hmem, rfl⟩ := List.mem_map.mp hbits
  exact paddingBits_of_perCommand hlayout hmem

theorem paddingBits_add_sum (hlayout : codec.layout = .uniform) :
    codec.paddingBits + (codec.registry.commands.map Command.payloadBits).sum =
      codec.registry.commands.length * largestPayload codec.registry.commands := by
  have hle : ∀ command ∈ codec.registry.commands,
      command.payloadBits ≤ largestPayload codec.registry.commands := by
    intro command hmem
    rw [← map_command_entries, List.mem_map] at hmem
    obtain ⟨entry, hentry, rfl⟩ := hmem
    rw [payloadBits_eq_of_mem hentry]
    exact (largestPayload_isGreatest codec.registry.valid.ne_nil).2 _ (command_mem_of_mem hentry)
  rw [← sum_sub_add_sum hle]
  have hparts : (codec.entries.map fun entry => entry.paddingBits codec.totalBits) =
      codec.registry.commands.map fun command =>
        largestPayload codec.registry.commands - command.payloadBits := by
    nth_rewrite 2 [← map_command_entries]
    rw [List.map_map]
    exact List.map_congr_left fun entry hmem => paddingBits_of_uniform hlayout hmem
  rw [paddingBits, hparts]

/-! ### The report -/

theorem rows_have_room (codec : Codec) : ∀ row ∈ (Report.ofCodec codec).rows,
    row.headerLength + row.payloadBits ≤ (Report.ofCodec codec).totalBits := by
  intro row hrow
  obtain ⟨entry, hmem, rfl⟩ := List.mem_map.mp hrow
  change entry.header.length + entry.command.payloadBits ≤ codec.totalBits
  rw [payloadBits_eq_of_mem hmem]
  exact (sound_of_mem hmem).room

/-- The report counts the padding of all commands, as far as 32 bits go. -/
theorem toNat_unusedBits (hsum : codec.paddingBits < 2 ^ 32) :
    (Report.ofCodec codec).unusedBits.toNat = codec.paddingBits := by
  have hrows : ((Report.ofCodec codec).rows.map fun row =>
      (Report.ofCodec codec).totalBits - row.headerLength - row.payloadBits) =
        codec.entries.map fun entry => entry.paddingBits codec.totalBits := by
    rw [Report.ofCodec, List.map_map]
    refine List.map_congr_left fun entry _ => ?_
    rw [Entry.paddingBits_eq, ← Nat.sub_sub]
    rfl
  rw [Report.unusedBits, toNat_foldl_add, hrows]
  · exact Nat.zero_add _
  · rw [hrows]
    exact Nat.lt_of_le_of_lt (Nat.le_of_eq (Nat.zero_add _)) hsum

/-- No subtraction of the report goes below zero. The per-command layout leaves no bit unused. In
the uniform layout the payloads are short of the largest by some number of bits, and as long as
32 bits hold this number it is what the report says; it is the number of padding bits that the
emitted decoders ask for and of those that decoding insists on. A value that matches a header is
decoded exactly when these are clear. -/
theorem unused_bits_counted (codec : Codec) :
    (Report.ofCodec codec).checkedUnusedBits = some (Report.ofCodec codec).unusedBits ∧
    (codec.layout = .perCommand → (Report.ofCodec codec).unusedBits = 0) ∧
    (codec.layout = .uniform → ∀ unused : Int,
      unused = codec.registry.commands.length * largestPayload codec.registry.commands -
          (codec.registry.commands.map Command.payloadBits).sum →
      unused < 2 ^ 32 →
        (Report.ofCodec codec).unusedBits.toNat = unused ∧ codec.paddingBits = unused ∧
        (codec.entries.map fun entry =>
          {position | codec.MustBeClear entry position}.ncard).sum = unused) ∧
    ∀ entry ∈ codec.entries, ∀ value, Fits value codec.totalBits →
      entry.header.Matches (codec.unwrap value) →
      ((∃ fields, codec.decode value = .ok ⟨entry.id, fields⟩) ↔
        ∀ position, codec.MustBeClear entry position →
          (codec.unwrap value).toNat.testBit position = false) := by
  refine ⟨Report.checkedUnusedBits_eq codec.rows_have_room, ?_, ?_, ?_⟩
  · intro hlayout
    have hzero := paddingBits_eq_zero hlayout
    rw [← UInt32.toNat_inj, toNat_unusedBits (by omega), hzero]
    rfl
  · intro hlayout unused hunused hlimit
    have hpadding : (codec.paddingBits : Int) = unused := by
      rw [hunused, ← Int.natCast_mul, ← paddingBits_add_sum hlayout, Int.natCast_add,
        Int.add_sub_cancel]
    have hpositions : (codec.entries.map fun entry =>
        {position | codec.MustBeClear entry position}.ncard).sum = codec.paddingBits :=
      congrArg List.sum (List.map_congr_left fun entry hmem => ncard_mustBeClear hmem)
    refine ⟨?_, hpadding, ?_⟩
    · rw [toNat_unusedBits (by omega), hpadding]
    · rw [hpositions, hpadding]
  · intro entry hmem value hfits hmatches
    exact exists_decode_iff_clear hmem hfits hmatches

end Codec

end CommandWord
