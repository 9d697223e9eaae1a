import CommandWord.Proofs.Codec.Carrying

/-!
What a value on the wire conveys. Adding one and masking are undone for every raw value that
leaves the all-ones value free, and no other raw value carries a message. Encoding yields
exactly the values that convey a message, and decoding finds the message that a value conveys,
whatever the order in which the entries are tried.
-/

namespace CommandWord

namespace Codec

variable {codec : Codec} {raw value : UInt64} {message : Message}

/-- The value has no bits above the word, and the raw value behind it carries the message. -/
structure Conveys (codec : Codec) (value : UInt64) (message : Message) : Prop where
  fits : Fits value codec.totalBits
  carried : ∃ entry, codec.entry? message.id = some entry ∧
    entry.Carries message.fields (codec.unwrap value)

theorem Conveys.exists_matching (hconveys : codec.Conveys value message) :
    ∃ entry, codec.entry? message.id = some entry ∧
      entry.header.Matches (codec.unwrap value) ∧
      entry.Carries message.fields (codec.unwrap value) := by
  obtain ⟨-, entry, hentry, hcarries⟩ := hconveys
  have hmatches := (entry_sound hentry).matches_of_carries codec.totalBits_le hcarries
  exact ⟨entry, hentry, hmatches, hcarries⟩

theorem Conveys.fill (hconveys : codec.Conveys value message) {command : Command}
    (hcommand : codec.registry.commands[message.id]? = some command) :
    Fill command.fields message.fields := by
  obtain ⟨-, entry, hentry, hcarries⟩ := hconveys
  obtain rfl : entry.command = command :=
    Option.some.inj ((entry?_eq_some_iff.mp hentry).2.1.symm.trans hcommand)
  exact hcarries.fill

/-- The raw value behind a message is not the highest of the word. -/
theorem Conveys.unwrap_lt (hconveys : codec.Conveys value message) :
    (codec.unwrap value).toNat + 1 < 2 ^ codec.totalBits := by
  obtain ⟨-, entry, hentry, hcarries⟩ := hconveys
  exact (entry_sound hentry).carries_lt codec.totalBits_le hcarries

theorem toNat_succ (codec : Codec) (hraw : raw.toNat + 1 < 2 ^ codec.totalBits) :
    (raw + 1).toNat = raw.toNat + 1 := by
  have hpow : 2 ^ codec.totalBits ≤ 2 ^ 64 := Nat.pow_le_pow_right (by omega) codec.totalBits_le
  rw [UInt64.toNat_add]
  exact Nat.mod_eq_of_lt (by simpa using (by omega : raw.toNat + 1 < 2 ^ 64))

theorem toNat_xor_mask_lt (codec : Codec) (hvalue : value.toNat < 2 ^ codec.totalBits) :
    (value ^^^ codec.mask).toNat < 2 ^ codec.totalBits :=
  fits_iff_lt.mp ((fits_iff_lt.mpr hvalue).xor codec.mask_fits)

theorem fits_wrap (hraw : raw.toNat + 1 < 2 ^ codec.totalBits) :
    Fits (codec.wrap raw) codec.totalBits := by
  rw [fits_iff_lt, wrap]
  apply codec.toNat_xor_mask_lt
  rwa [codec.toNat_succ hraw]

theorem wrap_xor_mask (codec : Codec) (raw : UInt64) : codec.wrap raw ^^^ codec.mask = raw + 1 := by
  rw [wrap, UInt64.xor_assoc, UInt64.xor_self, UInt64.xor_zero]

theorem unwrap_wrap (hraw : raw.toNat < 2 ^ codec.totalBits) :
    codec.unwrap (codec.wrap raw) = raw := by
  rw [unwrap, wrap_xor_mask, UInt64.add_sub_cancel]
  exact (fits_iff_lt.mpr hraw).and_lowMask

/-- Below the mask there is no raw value, and unwrapping goes round to all ones. -/
theorem toNat_unwrap_mask (codec : Codec) :
    (codec.unwrap codec.mask).toNat = 2 ^ codec.totalBits - 1 := by
  have hall : (0 - 1 : UInt64) &&& lowMask codec.totalBits = lowMask codec.totalBits := by
    rw [UInt64.and_comm]
    exact UInt64.and_neg_one
  rw [unwrap, UInt64.xor_self, hall, toNat_lowMask, Nat.min_eq_left codec.totalBits_le]

theorem wrap_unwrap (hfits : Fits value codec.totalBits)
    (hraw : (codec.unwrap value).toNat + 1 < 2 ^ codec.totalBits) :
    codec.wrap (codec.unwrap value) = value := by
  have hbound := codec.toNat_xor_mask_lt (fits_iff_lt.mp hfits)
  -- only the mask itself unmasks to zero, and it unwraps to all ones
  have hnonzero : value ^^^ codec.mask ≠ 0 := by
    intro hzero
    have hmask : value = codec.mask := UInt64.xor_eq_zero_iff.mp hzero
    rw [hmask, toNat_unwrap_mask] at hraw
    omega
  have hone : (1 : UInt64) ≤ value ^^^ codec.mask := by
    have hne : (value ^^^ codec.mask).toNat ≠ 0 := fun h => hnonzero (UInt64.toNat_inj.mp h)
    exact UInt64.le_iff_toNat_le.mpr (Nat.one_le_iff_ne_zero.mpr hne)
  have hpred : ((value ^^^ codec.mask) - 1).toNat < 2 ^ codec.totalBits := by
    rw [UInt64.toNat_sub_of_le _ _ hone]
    omega
  rw [wrap, unwrap, (fits_iff_lt.mpr hpred).and_lowMask, UInt64.sub_add_cancel,
    UInt64.xor_assoc, UInt64.xor_self, UInt64.xor_zero]

/-- A message is encoded exactly to the values that convey it. -/
theorem encode_eq_ok_iff : codec.encode message = .ok value ↔ codec.Conveys value message := by
  obtain ⟨id, fields⟩ := message
  constructor
  · intro hencode
    cases hraw : codec.rawValue ⟨id, fields⟩ with
    | error cause =>
      rw [encode, hraw] at hencode
      contradiction
    | ok raw =>
      rw [encode, hraw] at hencode
      rw [← Except.ok.inj hencode]
      cases hentry : codec.entry? id with
      | none =>
        simp only [rawValue, hentry] at hraw
        contradiction
      | some entry =>
        have hcarries := (rawValue_eq_ok_iff hentry).mp hraw
        have hlt := (entry_sound hentry).carries_lt codec.totalBits_le hcarries
        refine ⟨fits_wrap hlt, entry, hentry, ?_⟩
        rwa [unwrap_wrap (by omega)]
  · intro hconveys
    obtain ⟨entry, hentry, hcarries⟩ := hconveys.carried
    rw [encode, (rawValue_eq_ok_iff hentry).mpr hcarries]
    exact congrArg Except.ok (wrap_unwrap hconveys.fits hconveys.unwrap_lt)

/-- Every command encodes all values that fill its fields. -/
theorem encode_of_fill {id : Nat} {command : Command} {fields : List UInt64}
    (hcommand : codec.registry.commands[id]? = some command)
    (hfill : Fill command.fields fields) :
    ∃ value, codec.encode ⟨id, fields⟩ = .ok value := by
  obtain ⟨header, hentry⟩ := exists_entry hcommand
  obtain ⟨raw, hraw, -⟩ := rawValue_of_fill hentry hfill
  refine ⟨codec.wrap raw, ?_⟩
  rw [encode, hraw]
  rfl

/-- The entries in any order yield the message that a value conveys, or else a mismatch. -/
theorem decodeAmong_cases {order : List Entry} (horder : order.Perm codec.entries)
    (value : UInt64) :
    (∃ message, codec.decodeAmong order value = .ok message ∧ codec.Conveys value message) ∨
      codec.decodeAmong order value = .error (.decodeMismatch value) ∧
        ∀ message, ¬ codec.Conveys value message := by
  by_cases hfits : Fits value codec.totalBits
  · rw [decodeAmong, if_neg (not_not.mpr hfits)]
    cases hfound : order.find? fun entry => entry.header.Matches (codec.unwrap value) with
    | none =>
      refine Or.inr ⟨rfl, ?_⟩
      intro message hconveys
      obtain ⟨entry, hentry, hmatches, -⟩ := hconveys.exists_matching
      have hmem : entry ∈ order := horder.mem_iff.mpr (List.mem_of_getElem? hentry)
      exact List.find?_eq_none.mp hfound entry hmem (decide_eq_true hmatches)
    | some entry =>
      have hmem : entry ∈ codec.entries :=
        horder.mem_iff.mp (List.mem_of_find?_eq_some hfound)
      have hmatches : entry.header.Matches (codec.unwrap value) := by
        simpa using List.find?_some hfound
      have hentry := mem_entries_iff.mp hmem
      obtain ⟨values, behind, hunpack, hcarries⟩ :=
        (entry_sound hentry).unpack_eq codec.totalBits_le hmatches
      simp only [hunpack]
      by_cases hclean : behind.remainder = 0
      · rw [if_neg (not_not.mpr hclean)]
        exact Or.inl ⟨_, rfl, hfits, entry, hentry, (hcarries values).mpr ⟨hclean, rfl⟩⟩
      · rw [if_pos hclean]
        refine Or.inr ⟨rfl, ?_⟩
        intro message hconveys
        obtain ⟨other, hother, hmatches', hcarried⟩ := hconveys.exists_matching
        -- no other entry matches, so the bits left over spoil the only candidate
        rw [entry_unique (List.mem_of_getElem? hother) hmem hmatches' hmatches] at hcarried
        exact hclean ((hcarries message.fields).mp hcarried).1
  · rw [decodeAmong, if_pos hfits]
    exact Or.inr ⟨rfl, fun message hconveys => hfits hconveys.fits⟩

/-- A value conveys at most one message. -/
theorem Conveys.unique {other : Message} (hfirst : codec.Conveys value message)
    (hsecond : codec.Conveys value other) : message = other := by
  obtain ⟨first, hentry, hmatches, hcarries⟩ := hfirst.exists_matching
  obtain ⟨second, hentry', hmatches', hcarries'⟩ := hsecond.exists_matching
  have hsame := entry_unique (List.mem_of_getElem? hentry) (List.mem_of_getElem? hentry')
    hmatches hmatches'
  subst hsame
  have hid := (entry?_eq_some_iff.mp hentry).1.symm.trans (entry?_eq_some_iff.mp hentry').1
  have hfields := hcarries.fields_unique hcarries'
  cases message
  cases other
  simp_all

theorem decodeOrder_perm (codec : Codec) : codec.decodeOrder.Perm codec.entries :=
  List.mergeSort_perm _ _

theorem decode_cases (codec : Codec) (value : UInt64) :
    (∃ message, codec.decode value = .ok message ∧ codec.Conveys value message) ∨
      codec.decode value = .error (.decodeMismatch value) ∧
        ∀ message, ¬ codec.Conveys value message :=
  decodeAmong_cases codec.decodeOrder_perm value

/-- A value is decoded exactly to the message it conveys. -/
theorem decode_eq_ok_iff : codec.decode value = .ok message ↔ codec.Conveys value message := by
  rcases codec.decode_cases value with ⟨other, hok, hother⟩ | ⟨herror, hnone⟩
  · rw [hok]
    constructor
    · intro heq
      rwa [← Except.ok.inj heq]
    · intro hconveys
      rw [hother.unique hconveys]
  · rw [herror]
    simp [hnone message]

/-- When the entry that matches carries no fields, a value has no message. -/
theorem decode_of_not_carries {entry : Entry} (hmem : entry ∈ codec.entries)
    (hmatches : entry.header.Matches (codec.unwrap value))
    (hnone : ∀ fields, ¬ entry.Carries fields (codec.unwrap value)) :
    codec.decode value = .error (.decodeMismatch value) := by
  rcases codec.decode_cases value with ⟨message, -, hconveys⟩ | ⟨herror, -⟩
  · obtain ⟨other, hother, hmatches', hcarries⟩ := hconveys.exists_matching
    rw [entry_unique (List.mem_of_getElem? hother) hmem hmatches' hmatches] at hcarries
    exact absurd hcarries (hnone message.fields)
  · exact herror

end Codec

end CommandWord
