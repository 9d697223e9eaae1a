import CommandWord.Source.Evaluation
import CommandWord.Proofs.Codec.Entries

/-!
Where the fields of a routine sit. The slots of an entry follow each other without gaps from the
end of the header to the end of the payload, so every shift of a field that has bits is below
the width of the word, and so is the first bit of the padding.
-/

namespace CommandWord

namespace Slot

/-- Slots for fields of these widths, the first at the bit `shift`, each behind the one before. -/
def ofWidths (index shift : Nat) : List Nat → List Slot
  | [] => []
  | width :: widths => ⟨index, shift, width⟩ :: ofWidths (index + 1) (shift + width) widths

theorem length_ofWidths (index shift : Nat) (widths : List Nat) :
    (ofWidths index shift widths).length = widths.length := by
  induction widths generalizing index shift with
  | nil => rfl
  | cons width widths ih => rw [ofWidths, List.length_cons, ih, List.length_cons]

/-- A slot ends where the payload ends, or before. -/
theorem shift_add_le {index shift : Nat} {widths : List Nat} {slot : Slot}
    (hmem : slot ∈ ofWidths index shift widths) :
    slot.shift + slot.width ≤ shift + widths.sum := by
  induction widths generalizing index shift with
  | nil => contradiction
  | cons width widths ih =>
    rw [List.sum_cons]
    rcases List.mem_cons.mp hmem with rfl | hrest
    · simp only
      omega
    · have hle := ih hrest
      omega

end Slot

/-- As long as the widths are not cut, the offsets of the fields are their plain sums. -/
theorem Command.zipIdx_zip_offsetsFrom (length index start : Nat) {widths : List Nat}
    (hsum : start + widths.sum ≤ widthLimit) :
    (((widths.zip (offsetsFrom start widths)).zipIdx index).map
        fun ((width, offset), index) => (⟨index, length + offset, width⟩ : Slot)) =
      Slot.ofWidths index (length + start) widths := by
  induction widths generalizing index start with
  | nil => rfl
  | cons width widths ih =>
    rw [List.sum_cons] at hsum
    have hnext : addWidths start width = start + width := Nat.min_eq_left (by omega)
    rw [offsetsFrom, List.zip_cons_cons, List.zipIdx_cons, List.map_cons, hnext,
      ih (index + 1) (start + width) (by omega), Slot.ofWidths, Nat.add_assoc]

namespace Entry

variable {entry : Entry} {totalBits : Nat}

theorem Sound.slots_eq (hsound : entry.Sound totalBits) (hword : totalBits ≤ 64) :
    entry.slots = Slot.ofWidths 0 entry.header.length entry.command.fields := by
  have hroom := hsound.room
  have hlimit : 0 + entry.command.fields.sum ≤ widthLimit := by
    rw [show widthLimit = 4294967295 from rfl]
    omega
  exact Command.zipIdx_zip_offsetsFrom entry.header.length 0 0 hlimit

theorem Sound.length_slots (hsound : entry.Sound totalBits) (hword : totalBits ≤ 64) :
    entry.slots.length = entry.command.fields.length := by
  rw [hsound.slots_eq hword, Slot.length_ofWidths]

theorem map_index_slots (entry : Entry) :
    entry.slots.map Slot.index = List.range entry.slots.length := by
  have hplaces := List.zipIdx_map_snd 0 (entry.command.fields.zip entry.command.fieldOffsets)
  rw [← List.range_eq_range'] at hplaces
  simpa [slots, Function.comp_def] using hplaces

/-- The padding begins where the payload ends, unless the payload ends with the word. -/
theorem Sound.paddingStart_eq (hsound : entry.Sound totalBits) (hword : totalBits ≤ 64) :
    entry.paddingStart totalBits =
      if entry.header.length + entry.command.fields.sum < totalBits then
        some (entry.header.length + entry.command.fields.sum)
      else none := by
  have hroom := hsound.room
  rw [paddingStart, Command.payloadBits_of_le hword (by omega)]

theorem lt_of_paddingStart_eq_some {used : Nat} (hused : entry.paddingStart totalBits = some used) :
    used < totalBits := by
  rw [paddingStart] at hused
  split at hused
  next hlt =>
    obtain rfl := Option.some.inj hused
    exact hlt
  next => contradiction

end Entry

end CommandWord
