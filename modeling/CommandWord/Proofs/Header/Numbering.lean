import CommandWord.Header.Allocation
import CommandWord.Proofs.Lists.StableSort

/-!
The order in which commands are numbered, and the way back. Numbering sorts the requests by
header length alone; that equal lengths stay in registry order is the stability of the sort. The
finished rows go back to the places of their requests, and no two requests have the same place.
-/

namespace CommandWord

namespace Header.Request

/-- Shorter headers first, equal lengths in registry order. -/
def Precedes (first second : Request) : Prop :=
  first.length < second.length ∨ first.length = second.length ∧ first.id ≤ second.id

instance (first second : Request) : Decidable (first.Precedes second) :=
  inferInstanceAs (Decidable (_ ∨ _))

variable {commands : List Command} {lengths : List Nat}

theorem map_length_ofCommands (hlengths : lengths.length = commands.length) :
    (ofCommands commands lengths).map Request.length = lengths := by
  have hrows := List.zipIdx_map_fst 0 (commands.zip lengths)
  calc (ofCommands commands lengths).map Request.length
      = ((commands.zip lengths).zipIdx.map Prod.fst).map Prod.snd := by
        simp only [ofCommands, List.map_map, Function.comp_def]
    _ = lengths := by rw [hrows, List.map_snd_zip (Nat.le_of_eq hlengths)]

theorem map_id_ofCommands (hlengths : lengths.length = commands.length) :
    (ofCommands commands lengths).map Request.id = List.range' 0 commands.length := by
  calc (ofCommands commands lengths).map Request.id
      = (commands.zip lengths).zipIdx.map Prod.snd := by
        simp only [ofCommands, List.map_map, Function.comp_def]
    _ = List.range' 0 commands.length := by
        rw [List.zipIdx_map_snd, List.length_zip, hlengths, Nat.min_self]

theorem ofCommands_sorted (hlengths : lengths.length = commands.length) :
    (ofCommands commands lengths).Pairwise fun first second => first.id < second.id := by
  rw [← List.pairwise_map, map_id_ofCommands hlengths]
  exact List.pairwise_lt_range' 1

/-- The place of a request identifies it. -/
theorem eq_of_id_eq (hlengths : lengths.length = commands.length) {first second : Request}
    (hfirst : first ∈ ofCommands commands lengths)
    (hsecond : second ∈ ofCommands commands lengths) (hid : first.id = second.id) :
    first = second := by
  have hnodup : ((ofCommands commands lengths).map Request.id).Nodup := by
    rw [map_id_ofCommands hlengths]
    exact List.nodup_range'
  exact List.inj_on_of_nodup_map hnodup hfirst hsecond hid

theorem mergeSort_place_sorted (rows : List (Request × Header)) :
    (rows.mergeSort fun first second => first.1.id ≤ second.1.id).Pairwise fun first second =>
      first.1.id ≤ second.1.id := by
  refine (List.pairwise_mergeSort ?_ ?_ rows).imp of_decide_eq_true
  · intro a b c hab hbc
    rw [decide_eq_true_eq] at hab hbc ⊢
    exact Nat.le_trans hab hbc
  · intro a b
    rw [Bool.or_eq_true, decide_eq_true_eq, decide_eq_true_eq]
    exact Nat.le_total a.1.id b.1.id

/-- Sorting rows by the place of their requests gives the requests back in registry order. -/
theorem map_fst_mergeSort {rows : List (Request × Header)}
    (hlengths : lengths.length = commands.length)
    (hperm : (rows.map Prod.fst).Perm (ofCommands commands lengths)) :
    (rows.mergeSort fun first second => first.1.id ≤ second.1.id).map Prod.fst =
      ofCommands commands lengths := by
  let inOrder := rows.mergeSort fun first second => first.1.id ≤ second.1.id
  have hrows : (inOrder.map Prod.fst).Perm (ofCommands commands lengths) :=
    ((List.mergeSort_perm rows _).map Prod.fst).trans hperm
  have hsorted : (inOrder.map Prod.fst).Pairwise fun first second => first.id ≤ second.id :=
    List.pairwise_map.mpr (mergeSort_place_sorted rows)
  -- both sides are sorted by place, and a place identifies its request
  refine List.Perm.eq_of_pairwise ?_ hsorted
    ((ofCommands_sorted hlengths).imp Nat.le_of_lt) hrows
  intro first second hfirst hsecond hle hge
  exact eq_of_id_eq hlengths (hrows.mem_iff.mp hfirst) hsecond (Nat.le_antisymm hle hge)

theorem Precedes.length_le {a b : Request} (hab : a.Precedes b) : a.length ≤ b.length := by
  unfold Precedes at hab
  omega

end Header.Request

namespace Header

variable {rows : List (Request × Header)} {table : List Header}

theorem length_foldl_put : (rows.foldl put table).length = table.length := by
  induction rows generalizing table with
  | nil => rfl
  | cons row rest ih => rw [List.foldl_cons, ih, put, List.length_set]

theorem getElem?_foldl_put_of_ne {place : Nat} (hother : ∀ row ∈ rows, row.1.id ≠ place) :
    (rows.foldl put table)[place]? = table[place]? := by
  induction rows generalizing table with
  | nil => rfl
  | cons row rest ih =>
    obtain ⟨hne, hrest⟩ := List.forall_mem_cons.mp hother
    rw [List.foldl_cons, ih hrest, put, List.getElem?_set_ne hne]

/-- What is put at a place stays there, because no other row has that place. -/
theorem getElem?_foldl_put (hplaces : (rows.map (·.1.id)).Nodup) {row : Request × Header}
    (hmem : row ∈ rows) (hlt : row.1.id < table.length) :
    (rows.foldl put table)[row.1.id]? = some row.2 := by
  induction rows generalizing table with
  | nil => contradiction
  | cons first rest ih =>
    rw [List.map_cons, List.nodup_cons] at hplaces
    rw [List.foldl_cons]
    rcases List.mem_cons.mp hmem with rfl | hrest
    · have hother : ∀ other ∈ rest, other.1.id ≠ row.1.id := fun other hother heq =>
        hplaces.1 (heq ▸ List.mem_map_of_mem hother)
      rw [getElem?_foldl_put_of_ne hother, put, List.getElem?_set_self hlt]
    · exact ih hplaces.2 hrest (by rwa [put, List.length_set])

/-- Rows for all places of a table are arranged as a sort by place would. -/
theorem arrange_eq {size : Nat} (hplaces : (rows.map (·.1.id)).Perm (List.range size)) :
    arrange size rows =
      (rows.mergeSort fun first second => first.1.id ≤ second.1.id).map Prod.snd := by
  have hperm := List.mergeSort_perm rows fun first second => first.1.id ≤ second.1.id
  have hsorted := Request.mergeSort_place_sorted rows
  have hnodup := hplaces.nodup_iff.mpr List.nodup_range
  generalize rows.mergeSort (fun first second => first.1.id ≤ second.1.id) = inOrder
    at hperm hsorted ⊢
  have hids : inOrder.map (·.1.id) = List.range size := by
    refine List.Perm.eq_of_pairwise ?_ (List.pairwise_map.mpr hsorted) List.pairwise_le_range
      ((hperm.map _).trans hplaces)
    intro first second _ _ hle hge
    exact Nat.le_antisymm hle hge
  have hsize : inOrder.length = size := by
    rw [← List.length_map (·.1.id), hids, List.length_range]
  apply List.ext_getElem?
  intro place
  by_cases hplace : place < size
  · obtain ⟨row, hrow⟩ : ∃ row, inOrder[place]? = some row :=
      ⟨_, List.getElem?_eq_getElem (hsize ▸ hplace)⟩
    have hid : row.1.id = place := by
      have hrange := congrArg (·[place]?) hids
      simpa [hrow, hplace] using hrange
    have hput : (arrange size rows)[row.1.id]? = some row.2 := by
      have hmem := hperm.mem_iff.mp (List.mem_of_getElem? hrow)
      exact getElem?_foldl_put hnodup hmem (by rwa [hid, List.length_replicate])
    rw [hid] at hput
    rw [List.getElem?_map, hrow, hput, Option.map_some]
  · have hover : (arrange size rows).length ≤ place := by
      rw [arrange, length_foldl_put, List.length_replicate]
      omega
    rw [List.getElem?_eq_none hover, List.getElem?_eq_none (by rw [List.length_map]; omega)]

end Header

namespace Registry

variable (registry : Registry) {lengths : List Nat}

theorem numbering_perm (lengths : List Nat) :
    (registry.numbering lengths).Perm (Header.Request.ofCommands registry.commands lengths) :=
  List.mergeSort_perm _ _

theorem numbering_sorted (hlengths : lengths.length = registry.commands.length) :
    (registry.numbering lengths).Pairwise fun first second => first.Precedes second := by
  have hplaces := Header.Request.ofCommands_sorted hlengths
  have hnodup : (Header.Request.ofCommands registry.commands lengths).Nodup := by
    refine hplaces.imp ?_
    intro first second hlt heq
    exact absurd hlt (heq ▸ Nat.lt_irrefl first.id)
  refine (pairwise_mergeSort_key Header.Request.length hnodup hplaces).imp ?_
  intro first second hprecedes
  unfold Header.Request.Precedes
  omega

theorem map_length_numbering (hlengths : lengths.length = registry.commands.length) :
    ((registry.numbering lengths).map Header.Request.length).Perm lengths := by
  have hperm := (registry.numbering_perm lengths).map Header.Request.length
  rwa [Header.Request.map_length_ofCommands hlengths] at hperm

end Registry

end CommandWord
