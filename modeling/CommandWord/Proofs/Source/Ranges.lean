import CommandWord.Proofs.Codec.DecodeOrder
import CommandWord.Proofs.Source.Arithmetic
import CommandWord.Proofs.Source.Slots
import Mathlib.Algebra.Order.BigOperators.Group.List

/-!
Targets that suit a codec, and the numbers that a program needs of them. The words of such a
target hold every value of the codec. All literals of the program are then in the range of the
words, and all shift counts below their size.
-/

namespace CommandWord

namespace Program

/-- Every number that the program writes as a word: the mask, the bits of a value, the codes,
and the masks of headers and fields. -/
def literals (program : Program) : List UInt64 :=
  program.mask :: program.cut.toList ++
    (program.encoder.flatMap fun arm => arm.terms.filterMap fun
      | .literal value => some value
      | .field _ _ => none) ++
    program.decoder.flatMap fun arm =>
      arm.headerMask :: arm.code :: arm.fields.filterMap fun
        | .bits _ mask => some mask
        | .zero => none

end Program

/-- The decoder's tests are made in decode order. -/
theorem Routine.arms_ofCodec (codec : Codec) (kind : Command → String) :
    (Routine.ofCodec codec kind).decoder.flatMap DecodeClass.arms =
      codec.decodeOrder.map (DecodeArm.ofEntry kind codec.totalBits) := by
  calc (Routine.ofCodec codec kind).decoder.flatMap DecodeClass.arms
      = codec.headerClasses.flatMap fun entries =>
          entries.map (DecodeArm.ofEntry kind codec.totalBits) := by
        rw [ofCodec, List.flatMap_map]
        rfl
    _ = codec.decodeOrder.map (DecodeArm.ofEntry kind codec.totalBits) := by
        rw [← codec.flatten_headerClasses, List.map_flatten]
        rfl

theorem Codec.length_slots {codec : Codec} {entry : Entry} (hentry : entry ∈ codec.entries) :
    entry.slots.length = entry.command.fields.length :=
  (sound_of_mem hentry).length_slots codec.totalBits_le

/-- Every arm of the decoder stands for a command, and has an extract for each of its fields. -/
theorem Routine.exists_command_of_mem_decoder {codec : Codec} {kind : Command → String}
    {headers : DecodeClass} {arm : DecodeArm} (hheaders : headers ∈ (ofCodec codec kind).decoder)
    (harm : arm ∈ headers.arms) :
    ∃ command ∈ codec.registry.commands,
      arm.kind = kind command ∧ arm.fields.length = command.fields.length := by
  have hmem := List.mem_flatMap_of_mem hheaders harm
  rw [arms_ofCodec] at hmem
  obtain ⟨entry, hentry, rfl⟩ := List.mem_map.mp hmem
  have hentry := codec.decodeOrder_perm.mem_iff.mp hentry
  refine ⟨entry.command, Codec.command_mem_of_mem hentry, rfl, ?_⟩
  rw [DecodeArm.ofEntry, List.length_map, Codec.length_slots hentry]

theorem EncodeArm.length_checks_ofEntry {codec : Codec} {entry : Entry}
    (kind : Command → String) (hentry : entry ∈ codec.entries) :
    (ofEntry kind entry).checks.length = entry.command.fields.length := by
  rw [ofEntry, List.length_map, Codec.length_slots hentry]

theorem EncodeArm.terms_ofEntry_ne_nil (kind : Command → String) (entry : Entry) :
    (ofEntry kind entry).terms ≠ [] := by
  intro hempty
  obtain ⟨hshifted, hcode⟩ := List.append_eq_nil_iff.mp hempty
  rw [if_pos (Or.inr hshifted)] at hcode
  contradiction

theorem EncodeArm.cases_of_mem_terms {kind : Command → String} {entry : Entry} {term : Term}
    (hmem : term ∈ (EncodeArm.ofEntry kind entry).terms) :
    (∃ slot ∈ entry.slots, 0 < slot.width ∧ term = .field slot.index slot.shift) ∨
      term = .literal entry.header.code := by
  rcases List.mem_append.mp hmem with hfield | hcode
  · obtain ⟨slot, hslot, rfl⟩ := List.mem_map.mp hfield
    obtain ⟨hslot, hwidth⟩ := List.mem_filter.mp hslot
    exact Or.inl ⟨slot, hslot, by simpa using hwidth, rfl⟩
  · split at hcode
    · exact Or.inr (List.mem_singleton.mp hcode)
    · contradiction

theorem DecodeArm.exists_slot_of_mem_fields {kind : Command → String} {entry : Entry}
    {totalBits shift : Nat} {mask : UInt64}
    (hmem : Extract.bits shift mask ∈ (DecodeArm.ofEntry kind totalBits entry).fields) :
    ∃ slot ∈ entry.slots, 0 < slot.width ∧ shift = slot.shift ∧ mask = lowMask slot.width := by
  obtain ⟨slot, hslot, hextract⟩ := List.mem_map.mp hmem
  unfold Slot.extract at hextract
  split at hextract
  · contradiction
  next hwidth =>
    obtain ⟨rfl, rfl⟩ := Extract.bits.inj hextract
    exact ⟨slot, hslot, by omega, rfl, rfl⟩

namespace WordTarget

variable {size bits : Nat} {target : WordTarget size} {codec : Codec} {entry : Entry}

@[simp]
theorem totalBits_program (target : WordTarget size) (codec : Codec) :
    (target.program codec).totalBits = codec.totalBits :=
  rfl

@[simp]
theorem mask_program (target : WordTarget size) (codec : Codec) :
    (target.program codec).mask = codec.mask :=
  rfl

theorem encoder_program (target : WordTarget size) (codec : Codec) :
    (target.program codec).encoder = codec.entries.map (EncodeArm.ofEntry target.kind) :=
  rfl

theorem decoder_program (target : WordTarget size) (codec : Codec) :
    (target.program codec).decoder =
      codec.decodeOrder.map (DecodeArm.ofEntry target.kind codec.totalBits) :=
  Routine.arms_ofCodec codec target.kind

/-- Values are cut where the words are wider. -/
theorem cut_program (target : WordTarget size) (codec : Codec) :
    (target.program codec).cut =
      if codec.totalBits < size then some (lowMask codec.totalBits) else none :=
  rfl

/-- Every value of the codec is a number that the words of the target compute with, and the
source has a name of its own for every command. -/
structure Suits (target : WordTarget size) (codec : Codec) (bits : Nat) : Prop where
  arithmetic : target.arithmetic.Exact bits
  size_le : size ≤ 64
  totalBits_le : codec.totalBits ≤ bits
  kinds : (codec.registry.commands.map target.kind).Nodup

namespace Suits

theorem totalBits_le_size (hsuits : target.Suits codec bits) : codec.totalBits ≤ size :=
  Nat.le_trans hsuits.totalBits_le hsuits.arithmetic.le_size

/-- What fits the codec's values is in the range of the target. -/
theorem lt_of_lt (hsuits : target.Suits codec bits) {number : Nat}
    (hnumber : number < 2 ^ codec.totalBits) : number < 2 ^ bits :=
  Nat.lt_of_lt_of_le hnumber (Nat.pow_le_pow_right (by omega) hsuits.totalBits_le)

theorem lowMask_lt (hsuits : target.Suits codec bits) {count : Nat} (hcount : count ≤ bits) :
    (lowMask count).toNat < 2 ^ bits :=
  hsuits.arithmetic.lowMask_lt hsuits.size_le hcount

theorem mask_lt (hsuits : target.Suits codec bits) : codec.mask.toNat < 2 ^ bits :=
  hsuits.lt_of_lt (fits_iff_lt.mp codec.mask_fits)

theorem room (hsuits : target.Suits codec bits) (hentry : entry ∈ codec.entries) :
    entry.header.length + entry.command.fields.sum ≤ bits :=
  Nat.le_trans (Codec.sound_of_mem hentry).room hsuits.totalBits_le

theorem code_lt (hsuits : target.Suits codec bits) (hentry : entry ∈ codec.entries) :
    entry.header.code.toNat < 2 ^ bits := by
  have hroom := hsuits.room hentry
  have hcode := (Codec.sound_of_mem hentry).code_lt codec.totalBits_le
  have hpow : 2 ^ entry.header.length ≤ 2 ^ bits := Nat.pow_le_pow_right (by omega) (by omega)
  omega

theorem width_le (hsuits : target.Suits codec bits) (hentry : entry ∈ codec.entries) :
    ∀ width ∈ entry.command.fields, width ≤ bits := by
  intro width hmem
  have hroom := hsuits.room hentry
  have hle := List.le_sum_of_mem hmem
  omega

/-- The name that a source gives to a command leads back to its entry. -/
theorem find?_kind (hsuits : target.Suits codec bits) (hentry : entry ∈ codec.entries) :
    (codec.entries.find? fun other => target.kind other.command = target.kind entry.command) =
      some entry := by
  have hnodup : (codec.entries.map fun other => target.kind other.command).Nodup := by
    have hkinds := hsuits.kinds
    rwa [← codec.map_command_entries, List.map_map] at hkinds
  cases hfound : codec.entries.find? fun other =>
      target.kind other.command = target.kind entry.command with
  | none =>
    have hother := List.find?_eq_none.mp hfound entry hentry
    simp at hother
  | some other =>
    have hkind : target.kind other.command = target.kind entry.command := by
      simpa using List.find?_some hfound
    rw [List.inj_on_of_nodup_map hnodup (List.mem_of_find?_eq_some hfound) hentry hkind]

/-- A slot that has bits lies within the words. -/
theorem slot_bounds (hsuits : target.Suits codec bits) (hentry : entry ∈ codec.entries)
    {slot : Slot} (hslot : slot ∈ entry.slots) : slot.shift + slot.width ≤ bits := by
  have hroom := hsuits.room hentry
  rw [(Codec.sound_of_mem hentry).slots_eq codec.totalBits_le] at hslot
  have hend := Slot.shift_add_le hslot
  omega

theorem cut_of_mem (hsuits : target.Suits codec bits) {cut : UInt64}
    (hcut : cut ∈ (target.program codec).cut) :
    codec.totalBits < size ∧ cut.toNat < 2 ^ bits := by
  rw [cut_program] at hcut
  split at hcut
  next hnarrow =>
    obtain rfl := Option.some.inj hcut
    exact ⟨hnarrow, hsuits.lowMask_lt hsuits.totalBits_le⟩
  next => contradiction

theorem shiftCounts_lt (hsuits : target.Suits codec bits) :
    ∀ count ∈ (target.program codec).shiftCounts, count < size := by
  intro count hmem
  have hle := hsuits.arithmetic.le_size
  rw [Program.shiftCounts, decoder_program] at hmem
  rcases List.mem_append.mp hmem with hmem | hdecoder
  rcases List.mem_append.mp hmem with hcut | hencoder
  · obtain ⟨cut, hthere, rfl⟩ := List.mem_map.mp hcut
    exact (hsuits.cut_of_mem (Option.mem_toList.mp hthere)).1
  · obtain ⟨arm, harm, hcount⟩ := List.mem_flatMap.mp hencoder
    obtain ⟨entry, hentry, rfl⟩ := List.mem_map.mp harm
    obtain ⟨term, hterm, hshift⟩ := List.mem_filterMap.mp hcount
    rcases EncodeArm.cases_of_mem_terms hterm with ⟨slot, hslot, hwidth, rfl⟩ | rfl
    · have hbounds := hsuits.slot_bounds hentry hslot
      obtain rfl := Option.some.inj hshift
      omega
    · contradiction
  · obtain ⟨arm, harm, hcount⟩ := List.mem_flatMap.mp hdecoder
    obtain ⟨entry, hentry, rfl⟩ := List.mem_map.mp harm
    replace hentry := codec.decodeOrder_perm.mem_iff.mp hentry
    rcases List.mem_append.mp hcount with hpadding | hfield
    · have hused : entry.paddingStart codec.totalBits = some count :=
        Option.mem_toList.mp hpadding
      have htotal := hsuits.totalBits_le
      have hlt := Entry.lt_of_paddingStart_eq_some hused
      omega
    · obtain ⟨extract, hextract, hshift⟩ := List.mem_filterMap.mp hfield
      cases extract with
      | zero => contradiction
      | bits shift mask =>
        obtain rfl : shift = count := Option.some.inj hshift
        obtain ⟨slot, hslot, hwidth, rfl, -⟩ := DecodeArm.exists_slot_of_mem_fields hextract
        have hbounds := hsuits.slot_bounds hentry hslot
        omega

theorem literals_lt (hsuits : target.Suits codec bits) :
    ∀ literal ∈ (target.program codec).literals, literal.toNat < 2 ^ bits := by
  intro literal hmem
  rw [Program.literals, decoder_program] at hmem
  rcases List.mem_append.mp hmem with hmem | hdecoder
  rcases List.mem_append.mp hmem with hwhole | hencoder
  · rcases List.mem_cons.mp hwhole with rfl | hcut
    · exact hsuits.mask_lt
    · exact (hsuits.cut_of_mem (Option.mem_toList.mp hcut)).2
  · obtain ⟨arm, harm, hliteral⟩ := List.mem_flatMap.mp hencoder
    obtain ⟨entry, hentry, rfl⟩ := List.mem_map.mp harm
    obtain ⟨term, hterm, hvalue⟩ := List.mem_filterMap.mp hliteral
    rcases EncodeArm.cases_of_mem_terms hterm with ⟨slot, hslot, hwidth, rfl⟩ | rfl
    · contradiction
    · obtain rfl := Option.some.inj hvalue
      exact hsuits.code_lt hentry
  · obtain ⟨arm, harm, hliteral⟩ := List.mem_flatMap.mp hdecoder
    obtain ⟨entry, hentry, rfl⟩ := List.mem_map.mp harm
    replace hentry := codec.decodeOrder_perm.mem_iff.mp hentry
    rcases List.mem_cons.mp hliteral with rfl | hliteral
    · have hroom := hsuits.room hentry
      exact hsuits.lowMask_lt (by omega)
    rcases List.mem_cons.mp hliteral with rfl | hfield
    · exact hsuits.code_lt hentry
    · obtain ⟨extract, hextract, hmask⟩ := List.mem_filterMap.mp hfield
      cases extract with
      | zero => contradiction
      | bits shift mask =>
        obtain rfl : mask = literal := Option.some.inj hmask
        obtain ⟨slot, hslot, -, -, rfl⟩ := DecodeArm.exists_slot_of_mem_fields hextract
        have hbounds := hsuits.slot_bounds hentry hslot
        exact hsuits.lowMask_lt (by omega)

end Suits

end WordTarget

end CommandWord
