import CommandWord.Proofs.Codec.Faults
import CommandWord.Proofs.Source.Ranges

/-!
What the encoder of a program computes. Its checks find the value that the codec would report,
its terms add up to the raw value that carries the fields, and no step of it is a fault.
-/

namespace CommandWord

namespace WordTarget

variable {size bits : Nat} {target : WordTarget size}

/-! ### Values by their places -/

theorem getElem?_of_drop {given values : List (BitVec size)} {index : Nat} {value : BitVec size}
    (hgiven : given.drop index = value :: values) : given[index]? = some value := by
  rw [← Nat.add_zero index, ← List.getElem?_drop, hgiven]
  rfl

theorem drop_succ_of_drop {given values : List (BitVec size)} {index : Nat} {value : BitVec size}
    (hgiven : given.drop index = value :: values) : given.drop (index + 1) = values := by
  rw [← List.tail_drop, hgiven, List.tail_cons]

/-! ### Checks -/

theorem check_eq (hexact : target.arithmetic.Exact bits) (value : BitVec size) (field : Nat)
    {width : Nat} (hwidth : width ≤ bits) :
    target.check value field width =
      if value.toNat < 2 ^ width then .ok () else .error (.fieldRange field) := by
  have hpow : 2 ^ width ≤ 2 ^ bits := Nat.pow_le_pow_right (by omega) hwidth
  unfold check
  by_cases hnegative : 2 ^ bits ≤ value.toNat
  · rw [if_pos ((hexact.isNegative value).mpr hnegative), if_neg (by omega)]
  · rw [if_neg (fun h => hnegative ((hexact.isNegative value).mp h))]
    by_cases hnarrow : width < size
    · rw [if_pos hnarrow, hexact.shiftRight value hnarrow]
      simp only [bind, Except.bind, ushiftRight_eq_zero_iff]
    · -- a field as wide as the word of the target takes every value of it
      have hle := hexact.le_size
      obtain rfl : width = bits := by omega
      rw [if_neg hnarrow, if_pos (by omega)]

/-- The checks of fields of these widths, the first of them at place `index`. -/
def checksFrom (index shift : Nat) (widths : List Nat) : List (Nat × Nat) :=
  (Slot.ofWidths index shift widths).map fun slot => (slot.index, slot.width)

theorem checkAll_cons (hexact : target.arithmetic.Exact bits) {index : Nat} (shift : Nat)
    {width : Nat} (hwidth : width ≤ bits) (widths : List Nat) {given values : List (BitVec size)}
    {value : BitVec size} (hgiven : given.drop index = value :: values) :
    target.checkAll given (checksFrom index shift (width :: widths)) =
      if value.toNat < 2 ^ width then
        target.checkAll given (checksFrom (index + 1) (shift + width) widths)
      else .error (.fieldRange index) := by
  simp only [checksFrom, Slot.ofWidths, List.map_cons, checkAll, getElem?_of_drop hgiven,
    check_eq hexact value index hwidth]
  split <;> rfl

theorem checkAll_of_fill (hexact : target.arithmetic.Exact bits) (hsize : size ≤ 64)
    {index : Nat} (shift : Nat) {widths : List Nat} (hwidths : ∀ width ∈ widths, width ≤ bits)
    {given values : List (BitVec size)} (hgiven : given.drop index = values)
    (hfill : Fill widths (values.map unsignedWord)) :
    target.checkAll given (checksFrom index shift widths) = .ok () := by
  induction widths generalizing index shift values with
  | nil => rfl
  | cons width widths ih =>
    obtain ⟨hwidth, hrest⟩ := List.forall_mem_cons.mp hwidths
    cases values with
    | nil => exact absurd hfill.length_eq (by simp)
    | cons value values =>
      obtain ⟨hvalue, hvalues⟩ := List.forall₂_cons.mp hfill
      rw [toNat_unsignedWord hsize] at hvalue
      rw [checkAll_cons hexact _ hwidth _ hgiven, if_pos hvalue]
      exact ih _ hrest (drop_succ_of_drop hgiven) hvalues

theorem checkAll_of_misfit (hexact : target.arithmetic.Exact bits) (hsize : size ≤ 64)
    {index : Nat} (shift : Nat) {widths : List Nat} (hwidths : ∀ width ∈ widths, width ≤ bits)
    {given values : List (BitVec size)} (hgiven : given.drop index = values) {field width : Nat}
    {value : UInt64} (hmisfit : Misfit widths (values.map unsignedWord) field width value) :
    target.checkAll given (checksFrom index shift widths) =
      .error (.fieldRange (index + field)) := by
  induction widths generalizing index shift values field with
  | nil => cases hmisfit
  | cons first widths ih =>
    obtain ⟨hfirst, hrest⟩ := List.forall_mem_cons.mp hwidths
    cases values with
    | nil => cases hmisfit
    | cons head values =>
      rw [checkAll_cons hexact _ hfirst _ hgiven]
      cases hmisfit with
      | head _ _ hvalue =>
        rw [toNat_unsignedWord hsize] at hvalue
        rw [if_neg (by omega)]
        rfl
      | tail hhead hmisfit =>
        rw [toNat_unsignedWord hsize] at hhead
        rw [if_pos hhead, ih _ hrest (drop_succ_of_drop hgiven) hmisfit, Nat.add_right_comm,
          Nat.add_assoc]

/-! ### Terms -/

theorem terms_cons_eq_ok_iff {values : List (BitVec size)} {first : Term} {rest : List Term}
    {word : BitVec size} :
    target.terms values (first :: rest) = .ok word ↔
      ∃ low high, target.term values first = .ok low ∧ target.terms values rest = .ok high ∧
        word = low ||| high := by
  rw [terms]
  cases hlow : target.term values first with
  | error halt => simp [bind, Except.bind]
  | ok low =>
    cases hhigh : target.terms values rest with
    | error halt => simp [bind, Except.bind]
    | ok high => simp [bind, Except.bind, pure, Except.pure, eq_comm]

theorem terms_append {values : List (BitVec size)} {first second : List Term}
    {low high : BitVec size} (hlow : target.terms values first = .ok low)
    (hhigh : target.terms values second = .ok high) :
    target.terms values (first ++ second) = .ok (low ||| high) := by
  induction first generalizing low with
  | nil =>
    obtain rfl : 0 = low := Except.ok.inj hlow
    rw [List.nil_append, hhigh, show (0 : BitVec size) ||| high = high from BitVec.zero_or]
  | cons term rest ih =>
    obtain ⟨least, middle, hterm, hrest, rfl⟩ := terms_cons_eq_ok_iff.mp hlow
    rw [List.cons_append, terms_cons_eq_ok_iff]
    exact ⟨least, middle ||| high, hterm, ih hrest, BitVec.or_assoc _ _ _⟩

/-- The terms of the fields that have bits. -/
def fieldTerms (index shift : Nat) (widths : List Nat) : List Term :=
  ((Slot.ofWidths index shift widths).filter (0 < ·.width)).map fun slot =>
    .field slot.index slot.shift

/-- The fields' terms give the number that the fields spell, moved up behind the header. -/
theorem terms_fieldTerms (hexact : target.arithmetic.Exact bits) (hsize : size ≤ 64)
    {given : List (BitVec size)} {index shift : Nat} {widths : List Nat}
    {values : List (BitVec size)} (hgiven : given.drop index = values)
    (hfill : Fill widths (values.map unsignedWord)) (hroom : shift + widths.sum ≤ size) :
    ∃ word, target.terms given (fieldTerms index shift widths) = .ok word ∧
      word.toNat = 2 ^ shift * packed widths (values.map unsignedWord) := by
  induction widths generalizing index shift values with
  | nil => exact ⟨0, rfl, by simp [packed]⟩
  | cons width widths ih =>
    cases values with
    | nil => exact absurd hfill.length_eq (by simp)
    | cons value values =>
      obtain ⟨hvalue, hvalues⟩ := List.forall₂_cons.mp hfill
      rw [toNat_unsignedWord hsize] at hvalue
      rw [List.sum_cons] at hroom
      obtain ⟨rest, hrest, hnumber⟩ := ih (drop_succ_of_drop hgiven) hvalues
        (by omega : shift + width + widths.sum ≤ size)
      rw [List.map_cons, packed, toNat_unsignedWord hsize]
      by_cases hwidth : 0 < width
      · have hat : given[index]? = some value := by
          rw [← Nat.add_zero index, ← List.getElem?_drop, hgiven]
          rfl
        have hfirst : target.term given (.field index shift) = .ok (value <<< shift) := by
          rw [term, getElem?_of_drop hgiven]
          exact hexact.shiftLeft value (by omega)
        have hmoved := toNat_shiftLeft hvalue (by omega : shift + width ≤ size)
        refine ⟨value <<< shift ||| rest, ?_, ?_⟩
        · rw [fieldTerms, Slot.ofWidths, List.filter_cons_of_pos (by simpa using hwidth),
            List.map_cons, terms_cons_eq_ok_iff]
          exact ⟨_, _, hfirst, hrest, rfl⟩
        · have hlow : (value <<< shift).toNat < 2 ^ (shift + width) := by
            rw [hmoved, Nat.pow_add]
            exact Nat.mul_lt_mul_of_pos_left hvalue (Nat.two_pow_pos shift)
          rw [toNat_or_of_lt hlow hnumber, hmoved, hnumber, Nat.pow_add, Nat.mul_assoc,
            Nat.mul_add]
      · -- a field of no bits has no term, and its value is zero
        obtain rfl : width = 0 := by omega
        have hzero : value.toNat = 0 := by simpa using hvalue
        refine ⟨rest, ?_, ?_⟩
        · rw [fieldTerms, Slot.ofWidths, List.filter_cons_of_neg (by simp)]
          exact hrest
        · rw [hnumber, hzero]
          simp

/-- The code is one more term, unless it is zero and something else is there. -/
theorem terms_code (hexact : target.arithmetic.Exact bits) (values : List (BitVec size))
    {code : UInt64} (hcode : code.toNat < 2 ^ bits) (fields : List Term) :
    ∃ word, target.terms values (if code ≠ 0 ∨ fields = [] then [.literal code] else []) =
        .ok word ∧ word.toNat = code.toNat := by
  split
  · refine ⟨BitVec.ofNat size code.toNat ||| 0, ?_, ?_⟩
    · exact terms_cons_eq_ok_iff.mpr ⟨_, _, hexact.literal hcode, rfl, rfl⟩
    · rw [show BitVec.ofNat size code.toNat ||| 0 = _ from BitVec.or_zero,
        hexact.toNat_ofNat hcode]
  next hleft =>
    have hzero : code = 0 := by
      by_contra hne
      exact hleft (Or.inl hne)
    exact ⟨0, rfl, by rw [hzero]; rfl⟩

/-! ### Messages -/

variable {codec : Codec} {entry : Entry} {values : List (BitVec size)} {kind : Command → String}

theorem checks_ofEntry (hentry : entry ∈ codec.entries) :
    (EncodeArm.ofEntry kind entry).checks =
      checksFrom 0 entry.header.length entry.command.fields := by
  have hsound := Codec.sound_of_mem hentry
  rw [checksFrom, ← hsound.slots_eq codec.totalBits_le]
  rfl

theorem encodeArm_of_length_ne (hentry : entry ∈ codec.entries) (mask : UInt64)
    (hlength : values.length ≠ entry.command.fields.length) :
    target.encodeArm mask (EncodeArm.ofEntry kind entry) values = .error .wrongArity := by
  rw [encodeArm, EncodeArm.length_checks_ofEntry kind hentry, if_pos hlength]

namespace Suits

theorem encode_eq (hsuits : target.Suits codec bits) (hentry : entry ∈ codec.entries)
    (values : List (BitVec size)) :
    target.encode (target.program codec) ⟨target.kind entry.command, values⟩ =
      target.encodeArm codec.mask (EncodeArm.ofEntry target.kind entry) values := by
  have hfound : (target.program codec).encoder.find? (fun arm =>
      arm.kind = target.kind entry.command) = some (EncodeArm.ofEntry target.kind entry) := by
    rw [encoder_program, List.find?_map]
    exact congrArg (Option.map (EncodeArm.ofEntry target.kind)) (hsuits.find?_kind hentry)
  rw [encode, hfound]
  rfl

/-- The terms of an arm give the raw value that carries the fields. -/
theorem terms_of_carries (hsuits : target.Suits codec bits) (hentry : entry ∈ codec.entries)
    {raw : UInt64} (hcarries : entry.Carries (values.map unsignedWord) raw) :
    ∃ word, target.terms values (EncodeArm.ofEntry target.kind entry).terms = .ok word ∧
      word.toNat = raw.toNat := by
  have hexact := hsuits.arithmetic
  have hroom := hsuits.room hentry
  have hsound := Codec.sound_of_mem hentry
  have hle := hexact.le_size
  obtain ⟨high, hfields, hhigh⟩ := terms_fieldTerms hexact hsuits.size_le
    (List.drop_zero : values.drop 0 = values) hcarries.fill
    (Nat.le_trans hroom hle)
  obtain ⟨low, hcode, hlow⟩ := terms_code hexact values (hsuits.code_lt hentry)
    (fieldTerms 0 entry.header.length entry.command.fields)
  refine ⟨high ||| low, ?_, ?_⟩
  · have hterms := terms_append hfields hcode
    rw [fieldTerms, ← hsound.slots_eq codec.totalBits_le] at hterms
    exact hterms
  · have hbelow : low.toNat < 2 ^ entry.header.length := by
      have hlt := hsound.code_lt codec.totalBits_le
      omega
    rw [BitVec.or_comm, toNat_or_of_lt hbelow hhigh, hlow, hhigh, hcarries.toNat_eq]

/-- One more and the mask: neither leaves the words of the target. -/
theorem toNat_wrapped (hsuits : target.Suits codec bits) {raw : UInt64} {word : BitVec size}
    (hword : word.toNat = raw.toNat) (hraw : raw.toNat + 1 < 2 ^ codec.totalBits) :
    ((word + 1) ^^^ BitVec.ofNat size codec.mask.toNat).toNat = (codec.wrap raw).toNat := by
  have hpow : 2 ^ codec.totalBits ≤ 2 ^ size :=
    Nat.pow_le_pow_right (by omega) hsuits.totalBits_le_size
  have hmask := fits_iff_lt.mp codec.mask_fits
  change codec.mask.toNat < 2 ^ codec.totalBits at hmask
  have hsucc : (word + 1).toNat = raw.toNat + 1 := by
    have hone : (1 : BitVec size).toNat = 1 % 2 ^ size := rfl
    rw [BitVec.toNat_add, hone, Nat.add_mod_mod, hword, Nat.mod_eq_of_lt (by omega)]
  rw [BitVec.toNat_xor, hsucc, BitVec.toNat_ofNat, Nat.mod_eq_of_lt (by omega), Codec.wrap,
    UInt64.toNat_xor, codec.toNat_succ hraw]

theorem encodeArm_of_carries (hsuits : target.Suits codec bits) (hentry : entry ∈ codec.entries)
    {raw : UInt64} (hcarries : entry.Carries (values.map unsignedWord) raw) :
    ∃ coded, target.encodeArm codec.mask (EncodeArm.ofEntry target.kind entry) values = .ok coded ∧
      coded.toNat = (codec.wrap raw).toNat := by
  have hexact := hsuits.arithmetic
  have hsound := Codec.sound_of_mem hentry
  have hraw := hsound.carries_lt codec.totalBits_le hcarries
  have hlength : values.length = entry.command.fields.length := by
    simpa using hcarries.fill.length_eq.symm
  have hchecks := checkAll_of_fill hexact hsuits.size_le entry.header.length
    (hsuits.width_le hentry) (List.drop_zero : values.drop 0 = values) hcarries.fill
  obtain ⟨word, hterms, hword⟩ := hsuits.terms_of_carries hentry hcarries
  have hroom : word.toNat + 1 < 2 ^ bits := hsuits.lt_of_lt (by omega)
  refine ⟨(word + 1) ^^^ BitVec.ofNat size codec.mask.toNat, ?_, hsuits.toNat_wrapped hword hraw⟩
  rw [encodeArm, EncodeArm.length_checks_ofEntry _ hentry, if_neg (not_not.mpr hlength),
    checks_ofEntry hentry, hchecks, hterms, hexact.literal hsuits.mask_lt]
  simp only [bind, Except.bind, hexact.successor hroom, pure, Except.pure]

theorem encodeArm_of_misfit (hsuits : target.Suits codec bits) (hentry : entry ∈ codec.entries)
    (hlength : values.length = entry.command.fields.length) {field width : Nat} {value : UInt64}
    (hmisfit : Misfit entry.command.fields (values.map unsignedWord) field width value) :
    target.encodeArm codec.mask (EncodeArm.ofEntry target.kind entry) values =
      .error (.fieldRange field) := by
  have hchecks := checkAll_of_misfit hsuits.arithmetic hsuits.size_le entry.header.length
    (hsuits.width_le hentry) (List.drop_zero : values.drop 0 = values) hmisfit
  rw [Nat.zero_add] at hchecks
  rw [encodeArm, EncodeArm.length_checks_ofEntry _ hentry, if_neg (not_not.mpr hlength),
    checks_ofEntry hentry, hchecks]
  rfl

/-- The encoder of a program gives the value that the codec gives, or reports the same fault at
the same place. -/
theorem encode_cases (hsuits : target.Suits codec bits) {id : Nat} {command : Command}
    (hcommand : codec.registry.commands[id]? = some command) (values : List (BitVec size)) :
    (∃ value coded, codec.encode ⟨id, values.map unsignedWord⟩ = .ok value ∧
      target.encode (target.program codec) ⟨target.kind command, values⟩ = .ok coded ∧
        coded.toNat = value.toNat) ∨
    (values.length ≠ command.fields.length ∧
      codec.encode ⟨id, values.map unsignedWord⟩ =
        .error (.field (.wrongArity command.name command.fields.length values.length)) ∧
      target.encode (target.program codec) ⟨target.kind command, values⟩ =
        .error .wrongArity) ∨
    ∃ field width value, codec.encode ⟨id, values.map unsignedWord⟩ =
        .error (.field (.outOfRange command.name field value width)) ∧
      target.encode (target.program codec) ⟨target.kind command, values⟩ =
        .error (.fieldRange field) := by
  obtain ⟨header, hentry⟩ := Codec.exists_entry hcommand
  have hmem := List.mem_of_getElem? hentry
  rw [hsuits.encode_eq hmem]
  by_cases hlength : values.length = command.fields.length
  · have hlength' : (values.map unsignedWord).length = command.fields.length := by
      rwa [List.length_map]
    rcases fill_or_misfit hlength'.symm with hfill | ⟨field, width, value, hmisfit⟩
    · obtain ⟨raw, hraw, hcarries⟩ := Codec.rawValue_of_fill hentry hfill
      obtain ⟨coded, hcoded, hvalue⟩ := hsuits.encodeArm_of_carries hmem hcarries
      refine Or.inl ⟨codec.wrap raw, coded, ?_, hcoded, hvalue⟩
      rw [Codec.encode, hraw]
      rfl
    · exact Or.inr (Or.inr ⟨field, width, value,
        Codec.encode_of_misfit hcommand hlength' hmisfit,
        hsuits.encodeArm_of_misfit hmem hlength hmisfit⟩)
  · refine Or.inr (Or.inl ⟨hlength, ?_, encodeArm_of_length_ne hmem codec.mask hlength⟩)
    have hlength' : (values.map unsignedWord).length ≠ command.fields.length := by
      rwa [List.length_map]
    have hfault := Codec.encode_of_length_ne hcommand hlength'
    rwa [List.length_map] at hfault

end Suits

end WordTarget

end CommandWord
