import CommandWord.Proofs.Codec.Compilation
import CommandWord.Proofs.Codec.Wire
import Mathlib.Data.List.SplitBy

/-!
The order in which a received value is held against the headers. No raw value matches two
headers of a codec, so the order decides nothing: any other gives the same message or the same
mismatch.
-/

namespace CommandWord

/-- In a checked table a raw value matches at most one header. -/
theorem Header.Unambiguous.countP_matches_le_one {headers : List Header}
    (htable : Header.Unambiguous headers) (raw : UInt64) :
    (headers.countP fun header => header.Matches raw) ≤ 1 := by
  rw [List.countP_eq_length_filter]
  have hapart := htable.apart.filter fun header => header.Matches raw
  have hmatching : ∀ header ∈ headers.filter fun header => header.Matches raw,
      header.Matches raw := by
    intro header hmem
    simpa using (List.mem_filter.mp hmem).2
  generalize (headers.filter fun header => header.Matches raw) = matching at hapart hmatching ⊢
  match matching with
  | [] => simp
  | [_] => simp
  | first :: second :: rest =>
    have hcollide : first.Collides second :=
      Header.collides_of_matches (hmatching first (by simp)) (hmatching second (by simp))
    exact absurd hcollide (List.rel_of_pairwise_cons hapart (by simp))

namespace Codec

/-- The classes are consecutive pieces of the decode order. -/
theorem flatten_headerClasses (codec : Codec) :
    codec.headerClasses.flatten = codec.decodeOrder :=
  List.flatten_splitBy _ _

/-- At most one header of a codec matches a raw value, and decoding does not depend on the order
in which the entries are tried. -/
theorem decode_independent_of_order (codec : Codec) :
    (∀ raw, (codec.headers.countP fun header => header.Matches raw) ≤ 1) ∧
    ∀ order : List Entry, order.Perm codec.entries →
      ∀ value, codec.decodeAmong order value = codec.decode value := by
  constructor
  · exact (Registry.table_of_compileHeaders codec.compiled).2.countP_matches_le_one
  · intro order horder value
    rcases decodeAmong_cases horder value with ⟨message, hok, hconveys⟩ | ⟨herror, hnone⟩
    · rw [hok, decode_eq_ok_iff.mpr hconveys]
    · rcases decodeAmong_cases codec.decodeOrder_perm value with
        ⟨message, -, hconveys⟩ | ⟨herror', -⟩
      · exact absurd hconveys (hnone message)
      · rw [herror, decode, herror']

/-- The last header first, for a value that matches the second one and has a bit of its padding
set. -/
theorem decode_in_reverse_order :
    ∃ codec,
      build 8 [⟨"A", [3]⟩, ⟨"B", []⟩, ⟨"C", [1, 1]⟩] .uniform (.fixed 0x5A) = .ok codec ∧
        codec.entries.reverse.Perm codec.entries ∧
        codec.decodeAmong codec.entries.reverse 0x6B = codec.decode 0x6B := by
  obtain ⟨codec, hbuild⟩ : ∃ codec,
      build 8 [⟨"A", [3]⟩, ⟨"B", []⟩, ⟨"C", [1, 1]⟩] .uniform (.fixed 0x5A) = .ok codec :=
    exists_build (by rintro (_ | _ | _ | _) <;> decide)
  have hreverse := codec.entries.reverse_perm
  exact ⟨codec, hbuild, hreverse, (decode_independent_of_order codec).2 _ hreverse 0x6B⟩

end Codec

end CommandWord
