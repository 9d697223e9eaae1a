import CommandWord.Proofs.Source.Ranges

/-!
What the decoder of a program computes. It takes the same raw value out of a value, makes the
same tests in the same order, and finds the fields that the raw value carries, so it accepts a
value exactly when the codec does. No step of it is a fault.
-/

namespace CommandWord

namespace WordTarget

variable {size bits : Nat} {target : WordTarget size} {codec : Codec}

/-! ### Raw values -/

/-- A number counted down by one in a wide word and cut to a narrow one: zero goes round to the
highest number of the narrow word, whatever the wide one is. -/
theorem sub_one_mod {narrow wide : Nat} (hle : narrow ≤ wide) (number : Nat) :
    (2 ^ wide - 1 + number) % 2 ^ wide % 2 ^ narrow =
      (2 ^ narrow - 1 + number) % 2 ^ narrow := by
  have hpos := Nat.two_pow_pos narrow
  have hwide : 2 ^ wide = 2 ^ narrow * (2 ^ (wide - narrow) - 1) + 2 ^ narrow := by
    rw [Nat.mul_sub, Nat.mul_one, ← Nat.pow_add, Nat.add_sub_cancel' hle,
      Nat.sub_add_cancel (Nat.pow_le_pow_right (by omega) hle)]
  rw [Nat.mod_mod_of_dvd _ (Nat.pow_dvd_pow 2 hle), hwide, Nat.add_sub_assoc hpos, Nat.add_assoc,
    Nat.mul_add_mod]

theorem toNat_unwrap (codec : Codec) (value : UInt64) :
    (codec.unwrap value).toNat =
      (2 ^ codec.totalBits - 1 + (value.toNat ^^^ codec.mask.toNat)) % 2 ^ codec.totalBits := by
  rw [Codec.unwrap, toNat_and_lowMask, UInt64.toNat_sub, UInt64.toNat_xor,
    show (1 : UInt64).toNat = 1 from rfl, sub_one_mod codec.totalBits_le]

namespace Suits

theorem size_pos (hsuits : target.Suits codec bits) : 0 < size :=
  Nat.lt_of_lt_of_le codec.registry.valid.one_le hsuits.totalBits_le_size

/-- A word of the target that fits the codec is below the numbers with which it computes. -/
theorem lt_of_fits (hsuits : target.Suits codec bits) {value : BitVec size}
    (hfits : Fits (unsignedWord value) codec.totalBits) :
    value.toNat < 2 ^ codec.totalBits ∧ value.toNat < 2 ^ bits := by
  rw [fits_iff_lt, toNat_unsignedWord hsuits.size_le] at hfits
  exact ⟨hfits, hsuits.lt_of_lt hfits⟩

theorem toNat_unmasked (hsuits : target.Suits codec bits) (value : BitVec size) :
    (value ^^^ BitVec.ofNat size codec.mask.toNat).toNat =
      value.toNat ^^^ codec.mask.toNat := by
  rw [BitVec.toNat_xor, hsuits.arithmetic.toNat_ofNat hsuits.mask_lt]

/-- Unmasked, counted down by one and cut, a value is the raw value of the codec. -/
theorem toNat_unmasked_sub_one (hsuits : target.Suits codec bits) (value : BitVec size) :
    ((value ^^^ BitVec.ofNat size codec.mask.toNat) - 1).toNat % 2 ^ codec.totalBits =
      (codec.unwrap (unsignedWord value)).toNat := by
  rw [toNat_unwrap, toNat_unsignedWord hsuits.size_le, BitVec.toNat_sub, hsuits.toNat_unmasked,
    show (1 : BitVec size).toNat = 1 from BitVec.toNat_one hsuits.size_pos,
    sub_one_mod hsuits.totalBits_le_size]

theorem rawValue_of_not_fits (hsuits : target.Suits codec bits) {value : BitVec size}
    (hfits : ¬ Fits (unsignedWord value) codec.totalBits) :
    target.rawValue (target.program codec) value = .error .mismatch := by
  have hvalue := value.isLt
  rw [fits_iff_lt, toNat_unsignedWord hsuits.size_le] at hfits
  have hnarrow : codec.totalBits < size := by
    by_contra hwide
    have hpow : 2 ^ size ≤ 2 ^ codec.totalBits := Nat.pow_le_pow_right (by omega) (by omega)
    omega
  have habove : value >>> codec.totalBits ≠ 0 :=
    fun hzero => hfits (ushiftRight_eq_zero_iff.mp hzero)
  have hshift := hsuits.arithmetic.shiftRight value hnarrow
  have hmask := hsuits.arithmetic.literal hsuits.mask_lt
  simp only [rawValue, mask_program, totalBits_program, cut_program, hmask, bind, Except.bind,
    if_pos hnarrow, hshift, if_pos habove]

theorem rawValue_of_fits (hsuits : target.Suits codec bits) {value : BitVec size}
    (hfits : Fits (unsignedWord value) codec.totalBits) :
    ∃ raw, target.rawValue (target.program codec) value = .ok raw ∧
      raw.toNat = (codec.unwrap (unsignedWord value)).toNat := by
  obtain ⟨hvalue, -⟩ := hsuits.lt_of_fits hfits
  have hmask := hsuits.arithmetic.literal hsuits.mask_lt
  have hunmasked : (value ^^^ BitVec.ofNat size codec.mask.toNat).toNat < 2 ^ bits := by
    rw [hsuits.toNat_unmasked]
    exact hsuits.lt_of_lt (Nat.xor_lt_two_pow hvalue (fits_iff_lt.mp codec.mask_fits))
  have hpredecessor := hsuits.arithmetic.predecessor hunmasked
  have hnumber := hsuits.toNat_unmasked_sub_one value
  by_cases hnarrow : codec.totalBits < size
  · have habove : ¬ value >>> codec.totalBits ≠ 0 :=
      not_not.mpr (ushiftRight_eq_zero_iff.mpr hvalue)
    have hshift := hsuits.arithmetic.shiftRight value hnarrow
    have hlow := hsuits.arithmetic.literal (hsuits.lowMask_lt hsuits.totalBits_le)
    refine ⟨((value ^^^ BitVec.ofNat size codec.mask.toNat) - 1) &&&
      BitVec.ofNat size (lowMask codec.totalBits).toNat, ?_, ?_⟩
    · simp only [rawValue, mask_program, totalBits_program, cut_program, hmask, bind,
        Except.bind, if_pos hnarrow, hshift, if_neg habove, hpredecessor, hlow, pure, Except.pure]
    · rw [toNat_and_ofNat_lowMask hsuits.size_le hsuits.totalBits_le_size, hnumber]
  · -- a value as wide as the word needs no cut
    have hwide : codec.totalBits = size :=
      Nat.le_antisymm hsuits.totalBits_le_size (Nat.le_of_not_lt hnarrow)
    refine ⟨(value ^^^ BitVec.ofNat size codec.mask.toNat) - 1, ?_, ?_⟩
    · simp only [rawValue, mask_program, cut_program, hmask, bind, Except.bind, if_neg hnarrow,
        hpredecessor]
    · rw [← hnumber, hwide, Nat.mod_eq_of_lt (BitVec.isLt _)]

end Suits

/-! ### Fields and padding -/

/-- A field is what stands at its place in the raw value. -/
theorem extract_slot (hexact : target.arithmetic.Exact bits) (hsize : size ≤ 64)
    (raw : BitVec size) (slot : Slot) (hroom : slot.shift + slot.width ≤ bits) :
    ∃ word, target.extract raw slot.extract = .ok word ∧
      word.toNat = raw.toNat / 2 ^ slot.shift % 2 ^ slot.width := by
  have hle := hexact.le_size
  by_cases hwidth : slot.width = 0
  · refine ⟨0, ?_, ?_⟩
    · rw [Slot.extract, if_pos hwidth, extract]
    · rw [hwidth, Nat.pow_zero, Nat.mod_one]
      rfl
  · have hmask := hexact.lowMask_lt hsize (by omega : slot.width ≤ bits)
    refine ⟨raw >>> slot.shift &&& BitVec.ofNat size (lowMask slot.width).toNat, ?_, ?_⟩
    · simp only [Slot.extract, if_neg hwidth, extract,
        hexact.shiftRight raw (by omega : slot.shift < size), hexact.literal hmask, bind,
        Except.bind, pure, Except.pure]
    · rw [toNat_and_ofNat_lowMask hsize (by omega), BitVec.toNat_ushiftRight,
        Nat.shiftRight_eq_div_pow]

/-- The fields are the digits of what stands above the bit `shift`. -/
theorem extractAll_ofWidths (hexact : target.arithmetic.Exact bits) (hsize : size ≤ 64)
    (raw : BitVec size) (index : Nat) {shift : Nat} {widths : List Nat}
    (hroom : shift + widths.sum ≤ bits) :
    ∃ words, target.extractAll raw ((Slot.ofWidths index shift widths).map Slot.extract) =
        .ok words ∧
      Fill widths (words.map unsignedWord) ∧
      raw.toNat / 2 ^ shift = packed widths (words.map unsignedWord) +
        2 ^ widths.sum * (raw.toNat / 2 ^ (shift + widths.sum)) := by
  induction widths generalizing index shift with
  | nil => exact ⟨[], rfl, .nil, by simp [packed]⟩
  | cons width widths ih =>
    rw [List.sum_cons] at hroom
    obtain ⟨word, hword, hdigit⟩ := extract_slot hexact hsize raw ⟨index, shift, width⟩
      (by omega : shift + width ≤ bits)
    obtain ⟨words, hwords, hfill, hnumber⟩ := ih (index + 1)
      (by omega : shift + width + widths.sum ≤ bits)
    rw [← toNat_unsignedWord hsize] at hdigit
    have hlt : (unsignedWord word).toNat < 2 ^ width := by
      rw [hdigit]
      exact Nat.mod_lt _ (Nat.two_pow_pos width)
    refine ⟨word :: words, ?_, .cons hlt hfill, ?_⟩
    · simp only [Slot.ofWidths, List.map_cons, extractAll, hword, hwords, bind, Except.bind, pure,
        Except.pure]
    · exact div_two_pow_eq_packed_cons hdigit hnumber

namespace Suits

variable {entry : Entry} {word : BitVec size} {raw : UInt64}

/-- The padding of a command is clear, or the value has no message. -/
theorem checkPadding_eq (hsuits : target.Suits codec bits) (hentry : entry ∈ codec.entries)
    (hword : word.toNat < 2 ^ codec.totalBits) :
    target.checkPadding word (entry.paddingStart codec.totalBits) =
      if word.toNat < 2 ^ (entry.header.length + entry.command.fields.sum) then .ok ()
      else .error .mismatch := by
  have hsound := Codec.sound_of_mem hentry
  have hroom := hsound.room
  rw [hsound.paddingStart_eq codec.totalBits_le]
  by_cases hpadding : entry.header.length + entry.command.fields.sum < codec.totalBits
  · have hshift := hsuits.arithmetic.shiftRight word
      (Nat.lt_of_lt_of_le hpadding hsuits.totalBits_le_size)
    simp only [if_pos hpadding, checkPadding, hshift, bind, Except.bind, ushiftRight_eq_zero_iff]
  · -- without padding there is no bit left that could be set
    have hfull : entry.header.length + entry.command.fields.sum = codec.totalBits := by omega
    rw [if_neg hpadding, hfull, if_pos hword, checkPadding]

/-! ### Tests -/

theorem and_headerMask_eq_iff (hsuits : target.Suits codec bits) (hentry : entry ∈ codec.entries)
    (hword : word.toNat = raw.toNat) :
    word &&& BitVec.ofNat size (lowMask entry.header.length).toNat =
        BitVec.ofNat size entry.header.code.toNat ↔ entry.header.Matches raw := by
  have hroom := hsuits.room hentry
  have hle := hsuits.arithmetic.le_size
  rw [← BitVec.toNat_inj, toNat_and_ofNat_lowMask hsuits.size_le (by omega),
    hsuits.arithmetic.toNat_ofNat (hsuits.code_lt hentry), hword, Header.matches_iff]

/-- The first header that matches decides. -/
theorem decodeArms_map (hsuits : target.Suits codec bits) (hword : word.toNat = raw.toNat)
    {order : List Entry} (horder : ∀ entry ∈ order, entry ∈ codec.entries) :
    target.decodeArms word (order.map (DecodeArm.ofEntry target.kind codec.totalBits)) =
      match order.find? fun entry => entry.header.Matches raw with
      | none => .error .mismatch
      | some entry => do
          target.checkPadding word (entry.paddingStart codec.totalBits)
          return ⟨target.kind entry.command,
            ← target.extractAll word (entry.slots.map Slot.extract)⟩ := by
  induction order with
  | nil => rfl
  | cons entry order ih =>
    obtain ⟨hentry, hrest⟩ := List.forall_mem_cons.mp horder
    have hroom := hsuits.room hentry
    have hmask := hsuits.arithmetic.literal
      (hsuits.lowMask_lt (by omega : entry.header.length ≤ bits))
    have hcode := hsuits.arithmetic.literal (hsuits.code_lt hentry)
    have htest := hsuits.and_headerMask_eq_iff hentry hword
    simp only [List.map_cons, decodeArms, DecodeArm.ofEntry, hmask, hcode, bind, Except.bind]
    by_cases hmatches : entry.header.Matches raw
    · rw [if_pos (htest.mpr hmatches), List.find?_cons_of_pos (by simpa using hmatches)]
    · rw [if_neg (fun h => hmatches (htest.mp h)),
        List.find?_cons_of_neg (by simpa using hmatches)]
      exact ih hrest

/-- What follows a test that succeeds: the fields that the raw value carries, or a mismatch when
it carries none. -/
theorem accept_of_matches (hsuits : target.Suits codec bits) (hentry : entry ∈ codec.entries)
    (hword : word.toNat = raw.toNat) (hraw : raw.toNat < 2 ^ codec.totalBits)
    (hmatches : entry.header.Matches raw) :
    (∃ words, target.checkPadding word (entry.paddingStart codec.totalBits) = .ok () ∧
        target.extractAll word (entry.slots.map Slot.extract) = .ok words ∧
        entry.Carries (words.map unsignedWord) raw) ∨
      target.checkPadding word (entry.paddingStart codec.totalBits) = .error .mismatch ∧
        ∀ fields, ¬ entry.Carries fields raw := by
  have hsound := Codec.sound_of_mem hentry
  have hpadding := hsuits.checkPadding_eq hentry (by omega : word.toNat < 2 ^ codec.totalBits)
  rw [hword] at hpadding
  by_cases hclear : raw.toNat < 2 ^ (entry.header.length + entry.command.fields.sum)
  · obtain ⟨words, hwords, hfill, hnumber⟩ := extractAll_ofWidths hsuits.arithmetic
      hsuits.size_le word 0 (hsuits.room hentry)
    rw [hword] at hnumber
    rw [← hsound.slots_eq codec.totalBits_le] at hwords
    rw [if_pos hclear] at hpadding
    exact Or.inl ⟨words, hpadding, hwords,
      Entry.carries_of_matches hmatches hfill hnumber (Nat.div_eq_of_lt hclear)⟩
  · rw [if_neg hclear] at hpadding
    refine Or.inr ⟨hpadding, ?_⟩
    intro fields hcarries
    have hzero := hsound.div_eq_zero_of_carries codec.totalBits_le hcarries
    exact hclear ((Nat.div_eq_zero_iff_lt (Nat.two_pow_pos _)).mp hzero)

/-- The decoder of a program accepts the values that the codec accepts, with the same command
and fields. -/
theorem decode_cases (hsuits : target.Suits codec bits) (value : BitVec size) :
    (∃ id command words, codec.decode (unsignedWord value) = .ok ⟨id, words.map unsignedWord⟩ ∧
      codec.registry.commands[id]? = some command ∧
      target.decode (target.program codec) value = .ok ⟨target.kind command, words⟩) ∨
    codec.decode (unsignedWord value) = .error (.decodeMismatch (unsignedWord value)) ∧
      target.decode (target.program codec) value = .error .mismatch := by
  have horder := codec.decodeOrder_perm
  rw [decode, decoder_program]
  by_cases hfits : Fits (unsignedWord value) codec.totalBits
  · obtain ⟨word, hword, hnumber⟩ := hsuits.rawValue_of_fits hfits
    rw [hword]
    simp only [bind, Except.bind]
    rw [hsuits.decodeArms_map hnumber fun entry hmem => horder.mem_iff.mp hmem]
    cases hfound : codec.decodeOrder.find? fun entry =>
        entry.header.Matches (codec.unwrap (unsignedWord value)) with
    | none =>
      refine Or.inr ⟨?_, rfl⟩
      simp only [Codec.decode, Codec.decodeAmong, if_neg (not_not.mpr hfits), hfound]
    | some entry =>
      have hmem : entry ∈ codec.entries :=
        horder.mem_iff.mp (List.mem_of_find?_eq_some hfound)
      have hentry := Codec.mem_entries_iff.mp hmem
      have hmatches : entry.header.Matches (codec.unwrap (unsignedWord value)) := by
        simpa using List.find?_some hfound
      have hraw : (codec.unwrap (unsignedWord value)).toNat < 2 ^ codec.totalBits := by
        rw [toNat_unwrap]
        exact Nat.mod_lt _ (Nat.two_pow_pos _)
      rcases hsuits.accept_of_matches hmem hnumber hraw hmatches with
        ⟨words, hpadding, hwords, hcarries⟩ | ⟨hpadding, hnone⟩
      · refine Or.inl ⟨entry.id, entry.command, words, ?_,
          (Codec.entry?_eq_some_iff.mp hentry).2.1, ?_⟩
        · exact Codec.decode_eq_ok_iff.mpr ⟨hfits, entry, hentry, hcarries⟩
        · simp only [hpadding, hwords, pure, Except.pure, bind, Except.bind]
      · refine Or.inr ⟨Codec.decode_of_not_carries hmem hmatches hnone, ?_⟩
        simp only [hpadding, bind, Except.bind]
  · refine Or.inr ⟨?_, ?_⟩
    · rw [Codec.decode, Codec.decodeAmong, if_pos hfits]
    · rw [hsuits.rawValue_of_not_fits hfits]
      rfl

end Suits

end WordTarget

end CommandWord
