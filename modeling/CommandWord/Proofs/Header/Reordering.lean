import CommandWord.Proofs.Header.ClosedForm
import CommandWord.Proofs.Registry.Naming

/-!
What the order of the commands decides. Whether an allocation succeeds and which headers it hands
out depend on the lengths alone, in whatever order they come. Which command gets which header is
settled by the order of the commands of equal length, since these are numbered as they stand.
-/

namespace CommandWord

open Header

/-- Commands of equal length that stand in this order in the first list do so in the second. -/
def KeepsTies (first second : List (Command × Nat)) : Prop :=
  ∀ earlier later, earlier.2 = later.2 → [earlier, later].Sublist first →
    [earlier, later].Sublist second

instance (first second : List (Command × Nat)) : Decidable (KeepsTies first second) :=
  decidable_of_iff (∀ earlier ∈ first, ∀ later ∈ first, earlier.2 = later.2 →
      [earlier, later].Sublist first → [earlier, later].Sublist second) <| by
    constructor
    · intro hkeeps earlier later htie hpair
      exact hkeeps earlier (hpair.subset (by simp)) later (hpair.subset (by simp)) htie hpair
    · intro hkeeps earlier _ later _
      exact hkeeps earlier later

theorem shortestLength_eq_of_perm {lengths lengths' : List Nat} (hperm : lengths.Perm lengths') :
    shortestLength lengths = shortestLength lengths' := by
  have hmin : lengths.min? = lengths'.min? := by
    cases hother : lengths'.min? with
    | none =>
      rw [List.min?_eq_none_iff] at hother ⊢
      subst hother
      exact hperm.eq_nil
    | some shortest =>
      rw [List.min?_eq_some_iff] at hother ⊢
      refine ⟨hperm.mem_iff.mpr hother.1, ?_⟩
      intro length hmem
      exact hother.2 length (hperm.mem_iff.mp hmem)
  rw [shortestLength, hmin, shortestLength]

namespace Header.Request

/-- What is numbered: a command and its length. -/
def sized (request : Request) : Command × Nat := (request.command, request.length)

variable {commands : List Command} {lengths : List Nat}

theorem map_sized_ofCommands :
    (ofCommands commands lengths).map sized = commands.zip lengths := by
  calc (ofCommands commands lengths).map sized
      = (commands.zip lengths).zipIdx.map Prod.fst := by
        simp only [ofCommands, List.map_map, Function.comp_def, sized]
    _ = commands.zip lengths := List.zipIdx_map_fst 0 _

theorem getElem?_of_mem (hlengths : lengths.length = commands.length) {request : Request}
    (hmem : request ∈ ofCommands commands lengths) :
    (commands.zip lengths)[request.id]? = some request.sized := by
  obtain ⟨i, hi⟩ := List.mem_iff_getElem?.mp hmem
  rw [id_eq_of_getElem? hlengths hi, ← map_sized_ofCommands, List.getElem?_map, hi]
  rfl

end Header.Request

/-- The headers that numbered commands get, in the order of their numbers. -/
def assignedHeaders (shortest : Nat) (order : List (Command × Nat)) : List (Command × Header) :=
  order.zipIdx.map fun row => (row.1.1, ⟨reverseBits row.2.toUInt64 shortest, row.1.2⟩)

theorem map_snd_assignedHeaders (shortest : Nat) (order : List (Command × Nat)) :
    (assignedHeaders shortest order).map Prod.snd =
      (order.map Prod.snd).zipIdx.map fun row =>
        ⟨reverseBits row.2.toUInt64 shortest, row.1⟩ := by
  rw [assignedHeaders, List.zipIdx_map, List.map_map, List.map_map]
  rfl

theorem mem_assignedHeaders {shortest : Nat} {order : List (Command × Nat)} {command : Command}
    {header : Header} : (command, header) ∈ assignedHeaders shortest order ↔
      ∃ (i length : Nat), order[i]? = some (command, length) ∧
        header = ⟨reverseBits i.toUInt64 shortest, length⟩ := by
  rw [assignedHeaders, List.mem_map]
  constructor
  · rintro ⟨⟨row, i⟩, hrow, heq⟩
    obtain ⟨rfl, rfl⟩ := Prod.mk.inj heq
    exact ⟨i, row.2, List.mem_zipIdx_iff_getElem?.mp hrow, rfl⟩
  · rintro ⟨i, length, hrow, rfl⟩
    exact ⟨((command, length), i), List.mem_zipIdx_iff_getElem?.mpr hrow, rfl⟩

namespace Registry

variable (registry : Registry) {lengths : List Nat}

/-- The commands with their lengths, in the order in which they are numbered. -/
def order (lengths : List Nat) : List (Command × Nat) :=
  (registry.numbering lengths).map Request.sized

theorem order_perm (lengths : List Nat) :
    (registry.order lengths).Perm (registry.commands.zip lengths) := by
  rw [← Request.map_sized_ofCommands]
  exact (registry.numbering_perm lengths).map Request.sized

/-- The table gives the commands the headers of their numbers. -/
theorem zip_table_perm (hlengths : lengths.length = registry.commands.length) :
    (registry.commands.zip (registry.table lengths)).Perm
      (assignedHeaders (shortestLength lengths) (registry.order lengths)) := by
  have hcommands : (registry.rows lengths).map (fun row => row.1.command) = registry.commands := by
    calc (registry.rows lengths).map (fun row => row.1.command)
        = (((registry.rows lengths).map Prod.fst).map Request.sized).map Prod.fst := by
          simp only [List.map_map, Function.comp_def, Request.sized]
      _ = registry.commands := by
          rw [registry.map_fst_rows hlengths, Request.map_sized_ofCommands,
            List.map_fst_zip (Nat.le_of_eq hlengths.symm)]
  have hzip : registry.commands.zip (registry.table lengths) =
      (registry.rows lengths).map fun row => (row.1.command, row.2) := by
    conv_lhs => rw [← hcommands, table]
    exact List.zip_map'
  have hassigned : assignedHeaders (shortestLength lengths) (registry.order lengths) =
      ((registry.numbering lengths).zipIdx.map (numbered (shortestLength lengths))).map
        fun row => (row.1.command, row.2) := by
    rw [assignedHeaders, order, List.zipIdx_map, List.map_map, List.map_map]
    rfl
  rw [hzip, hassigned]
  exact (List.mergeSort_perm _ _).map _

theorem table_perm (hlengths : lengths.length = registry.commands.length) :
    (registry.table lengths).Perm
      ((assignedHeaders (shortestLength lengths) (registry.order lengths)).map Prod.snd) := by
  have hperm := (registry.zip_table_perm hlengths).map Prod.snd
  rwa [List.map_snd_zip (Nat.le_of_eq (registry.length_table hlengths))] at hperm

/-- An allocation that has room hands out the table. -/
theorem allocateHeaders_eq_ok_iff (hlengths : lengths.length = registry.commands.length)
    (hword : ∀ length ∈ lengths, length ≤ 64) {headers : List Header} :
    registry.allocateHeaders lengths = .ok headers ↔
      (registry.commands.length ≤ 2 ^ shortestLength lengths ∧
        shortestTotal lengths < 2 ^ shortestLength lengths) ∧
      headers = registry.table lengths := by
  have hroom := registry.blockedRow?_eq_none_iff hlengths
  rw [shortestTotal, ← hroom, registry.allocateHeaders_eq hlengths hword]
  cases registry.blockedRow? lengths with
  | some row => simp
  | none =>
    constructor
    · intro hok
      exact ⟨rfl, (Except.ok.inj hok).symm⟩
    · rintro ⟨-, rfl⟩
      rfl

theorem order_pairwise (hlengths : lengths.length = registry.commands.length) :
    (registry.order lengths).Pairwise fun earlier later =>
      earlier.2 < later.2 ∨ earlier.2 = later.2 ∧
        [earlier, later].Sublist (registry.commands.zip lengths) := by
  have hids : (registry.numbering lengths).Pairwise fun earlier later => earlier.id ≠ later.id := by
    have hnodup : ((registry.numbering lengths).map Request.id).Nodup := by
      rw [((registry.numbering_perm lengths).map Request.id).nodup_iff,
        Request.map_id_ofCommands hlengths]
      exact List.nodup_range'
    exact List.pairwise_map.mp hnodup
  rw [order, List.pairwise_map]
  refine ((registry.numbering_sorted hlengths).and hids).imp_of_mem ?_
  intro earlier later hearlier hlater hboth
  obtain ⟨hprecedes, hne⟩ := hboth
  unfold Request.Precedes at hprecedes
  by_cases hshorter : earlier.length < later.length
  · exact Or.inl hshorter
  · have hperm := registry.numbering_perm lengths
    refine Or.inr ⟨show earlier.length = later.length by omega, ?_⟩
    exact pair_sublist (by omega : earlier.id < later.id)
      (Request.getElem?_of_mem hlengths (hperm.mem_iff.mp hearlier))
      (Request.getElem?_of_mem hlengths (hperm.mem_iff.mp hlater))

/-- The header of the command with this name. -/
def headerNamed? (headers : List Header) (name : String) : Option Header :=
  (registry.find? name).bind fun id => headers[id]?

theorem headerNamed?_eq_some_iff {headers : List Header} {name : String} {header : Header} :
    registry.headerNamed? headers name = some header ↔
      ∃ command, command.name = name ∧ (command, header) ∈ registry.commands.zip headers := by
  simp only [headerNamed?, Option.bind_eq_some_iff, find?_eq_some_iff, List.mem_iff_getElem?,
    List.getElem?_zip_eq_some]
  constructor
  · rintro ⟨i, ⟨command, hcommand, hname⟩, hheader⟩
    exact ⟨command, hname, i, hcommand, hheader⟩
  · rintro ⟨command, hname, i, hcommand, hheader⟩
    exact ⟨i, ⟨command, hcommand, hname⟩, hheader⟩

theorem headerNamed?_table_iff (hlengths : lengths.length = registry.commands.length)
    {name : String} {header : Header} :
    registry.headerNamed? (registry.table lengths) name = some header ↔
      ∃ command, command.name = name ∧ ∃ (i length : Nat),
        (registry.order lengths)[i]? = some (command, length) ∧
        header = ⟨reverseBits i.toUInt64 (shortestLength lengths), length⟩ := by
  simp only [headerNamed?_eq_some_iff, (registry.zip_table_perm hlengths).mem_iff,
    mem_assignedHeaders]

theorem nodup_zip (hlengths : lengths.length = registry.commands.length) :
    (registry.commands.zip lengths).Nodup := by
  apply List.Nodup.of_map Prod.fst
  rw [List.map_fst_zip (Nat.le_of_eq hlengths.symm)]
  exact List.Nodup.of_map Command.variant registry.valid.nodup

theorem pair_sublist_zip_of_order (hlengths : lengths.length = registry.commands.length)
    {earlier later : Command × Nat} (htie : earlier.2 = later.2)
    (hpair : [earlier, later].Sublist (registry.order lengths)) :
    [earlier, later].Sublist (registry.commands.zip lengths) := by
  rcases List.pairwise_iff_forall_sublist.mp (registry.order_pairwise hlengths) hpair with
    hshorter | ⟨-, hplaces⟩
  · omega
  · exact hplaces

/-- Commands of equal length are numbered as they stand. -/
theorem pair_sublist_order_iff (hlengths : lengths.length = registry.commands.length)
    {earlier later : Command × Nat} (htie : earlier.2 = later.2) :
    [earlier, later].Sublist (registry.order lengths) ↔
      [earlier, later].Sublist (registry.commands.zip lengths) := by
  refine ⟨registry.pair_sublist_zip_of_order hlengths htie, ?_⟩
  intro hpair
  have hnodup := registry.nodup_zip hlengths
  have hperm := registry.order_perm lengths
  have hne : earlier ≠ later := List.pairwise_iff_forall_sublist.mp hnodup hpair
  have hearlier := hperm.mem_iff.mpr (hpair.subset List.mem_cons_self)
  have hlater := hperm.mem_iff.mpr (hpair.subset (List.mem_cons_of_mem _ List.mem_cons_self))
  rcases pair_sublist_total hearlier hlater hne with horder | horder
  · exact horder
  · have hback := registry.pair_sublist_zip_of_order hlengths htie.symm horder
    exact absurd (pair_sublist_antisymm hnodup hpair hback) hne

end Registry

/-- The commands of the second registry with their lengths are those of the first, in some
order. -/
structure Reordered (first second : Registry) (lengths lengths' : List Nat) : Prop where
  length_eq : lengths.length = first.commands.length
  length_eq' : lengths'.length = second.commands.length
  perm : (first.commands.zip lengths).Perm (second.commands.zip lengths')

namespace Reordered

variable {first second : Registry} {lengths lengths' : List Nat}

theorem commands_perm (hreordered : Reordered first second lengths lengths') :
    first.commands.Perm second.commands := by
  have hperm := hreordered.perm.map Prod.fst
  rwa [List.map_fst_zip (Nat.le_of_eq hreordered.length_eq.symm),
    List.map_fst_zip (Nat.le_of_eq hreordered.length_eq'.symm)] at hperm

theorem lengths_perm (hreordered : Reordered first second lengths lengths') :
    lengths.Perm lengths' := by
  have hperm := hreordered.perm.map Prod.snd
  rwa [List.map_snd_zip (Nat.le_of_eq hreordered.length_eq),
    List.map_snd_zip (Nat.le_of_eq hreordered.length_eq')] at hperm

theorem le_word (hreordered : Reordered first second lengths lengths')
    (hword : ∀ length ∈ lengths, length ≤ 64) : ∀ length ∈ lengths', length ≤ 64 :=
  fun length hmem => hword length (hreordered.lengths_perm.mem_iff.mpr hmem)

theorem room_iff (hreordered : Reordered first second lengths lengths') :
    (first.commands.length ≤ 2 ^ shortestLength lengths ∧
        shortestTotal lengths < 2 ^ shortestLength lengths) ↔
      second.commands.length ≤ 2 ^ shortestLength lengths' ∧
        shortestTotal lengths' < 2 ^ shortestLength lengths' := by
  have hlengths := hreordered.lengths_perm
  have htotal : shortestTotal lengths = shortestTotal lengths' := by
    rw [shortestTotal, shortestTotal, shortestLength_eq_of_perm hlengths, hlengths.countP_eq]
  rw [htotal, shortestLength_eq_of_perm hlengths, hreordered.commands_perm.length_eq]

/-- The lengths are numbered in one order, whatever the order of the commands. -/
theorem map_snd_order_eq (hreordered : Reordered first second lengths lengths') :
    (first.order lengths).map Prod.snd = (second.order lengths').map Prod.snd := by
  have hsorted : ∀ {registry : Registry} {lengths : List Nat},
      lengths.length = registry.commands.length →
        ((registry.order lengths).map Prod.snd).Pairwise (· ≤ ·) := by
    intro registry lengths hlengths
    rw [Registry.order, List.map_map, List.pairwise_map]
    exact (registry.numbering_sorted hlengths).imp Request.Precedes.length_le
  refine List.Perm.eq_of_pairwise ?_ (hsorted hreordered.length_eq)
    (hsorted hreordered.length_eq') ?_
  · intro a b _ _ hle hge
    exact Nat.le_antisymm hle hge
  · have hperm := (first.order_perm lengths).trans hreordered.perm
    exact (hperm.trans (second.order_perm lengths').symm).map Prod.snd

/-- With ties kept, the commands are numbered in one order. -/
theorem order_eq (hreordered : Reordered first second lengths lengths')
    (hties : KeepsTies (first.commands.zip lengths) (second.commands.zip lengths')) :
    first.order lengths = second.order lengths' := by
  have hperm := (first.order_perm lengths).trans hreordered.perm
  refine List.Perm.eq_of_pairwise ?_ ((first.order_pairwise hreordered.length_eq).imp ?_)
    (second.order_pairwise hreordered.length_eq') (hperm.trans (second.order_perm lengths').symm)
  · intro a b _ _ hforth hback
    rcases hforth with hshorter | ⟨heq, hforth⟩ <;> rcases hback with hlonger | ⟨_, hback⟩
    · omega
    · omega
    · omega
    · exact pair_sublist_antisymm (second.nodup_zip hreordered.length_eq') hforth hback
  · intro earlier later hpair
    rcases hpair with hshorter | ⟨heq, hpair⟩
    · exact Or.inl hshorter
    · exact Or.inr ⟨heq, hties earlier later heq hpair⟩

/-- When one order serves both, ties are kept. -/
theorem keepsTies_of_order_eq (hreordered : Reordered first second lengths lengths')
    (horder : first.order lengths = second.order lengths') :
    KeepsTies (first.commands.zip lengths) (second.commands.zip lengths') := by
  intro earlier later htie hpair
  rw [← first.pair_sublist_order_iff hreordered.length_eq htie, horder] at hpair
  exact (second.pair_sublist_order_iff hreordered.length_eq' htie).mp hpair

/-- The code of a header shows its number, so commands with the same headers are numbered in one
order. -/
theorem order_eq_of_headers (hreordered : Reordered first second lengths lengths')
    (hword : ∀ length ∈ lengths, length ≤ 64)
    (hroom : first.commands.length ≤ 2 ^ shortestLength lengths)
    (hnames : ∀ name, first.headerNamed? (first.table lengths) name =
      second.headerNamed? (second.table lengths') name) :
    first.order lengths = second.order lengths' := by
  have hshortest := shortestLength_eq_of_perm hreordered.lengths_perm
  have hperm := (first.order_perm lengths).trans hreordered.perm
  have hsize : (first.order lengths).length = (second.order lengths').length := by
    rw [hperm.length_eq, (second.order_perm lengths').length_eq]
  have hnumbers : (first.order lengths).length ≤ 2 ^ shortestLength lengths := by
    rw [(first.order_perm lengths).length_eq, List.length_zip]
    omega
  have hkeep : ∀ (i : Nat) (row : Command × Nat), (first.order lengths)[i]? = some row →
      (second.order lengths')[i]? = some row := by
    rintro i ⟨command, length⟩ hrow
    have hheader := (first.headerNamed?_table_iff hreordered.length_eq).mpr
      ⟨command, rfl, i, length, hrow, rfl⟩
    rw [hnames, second.headerNamed?_table_iff hreordered.length_eq', ← hshortest] at hheader
    obtain ⟨other, hname, j, length', hother, heq⟩ := hheader
    obtain ⟨hcode, rfl⟩ := Header.mk.inj heq
    have hmem := hperm.mem_iff.mp (List.mem_of_getElem? hrow)
    have hmem' := (second.order_perm lengths').mem_iff.mp (List.mem_of_getElem? hother)
    obtain rfl : other = command :=
      List.inj_on_of_nodup_map second.valid.nodup (List.of_mem_zip hmem').1
        (List.of_mem_zip hmem).1 (Command.variant_congr hname)
    have hlength : length ∈ lengths :=
      (List.of_mem_zip ((first.order_perm lengths).mem_iff.mp (List.mem_of_getElem? hrow))).2
    have hshort : shortestLength lengths ≤ 64 :=
      Nat.le_trans (shortestLength_le hlength) (hword length hlength)
    have hi := (List.getElem?_eq_some_iff.mp hrow).1
    have hj := (List.getElem?_eq_some_iff.mp hother).1
    rw [reverseBits_toUInt64_injective hshort (by omega) (by omega) hcode]
    exact hother
  apply List.ext_getElem?
  intro i
  cases hrow : (first.order lengths)[i]? with
  | some row => exact (hkeep i row hrow).symm
  | none =>
    rw [List.getElem?_eq_none_iff, hsize] at hrow
    exact (List.getElem?_eq_none hrow).symm

theorem table_perm (hreordered : Reordered first second lengths lengths') :
    (first.table lengths).Perm (second.table lengths') := by
  have hheaders : (assignedHeaders (shortestLength lengths) (first.order lengths)).map Prod.snd =
      (assignedHeaders (shortestLength lengths') (second.order lengths')).map Prod.snd := by
    rw [map_snd_assignedHeaders, map_snd_assignedHeaders, hreordered.map_snd_order_eq,
      shortestLength_eq_of_perm hreordered.lengths_perm]
  have hsecond := second.table_perm hreordered.length_eq'
  rw [← hheaders] at hsecond
  exact (first.table_perm hreordered.length_eq).trans hsecond.symm

theorem exists_allocateHeaders_iff (hreordered : Reordered first second lengths lengths')
    (hword : ∀ length ∈ lengths, length ≤ 64) :
    (∃ headers, first.allocateHeaders lengths = .ok headers) ↔
      ∃ headers, second.allocateHeaders lengths' = .ok headers := by
  simp only [first.allocateHeaders_eq_ok_iff hreordered.length_eq hword,
    second.allocateHeaders_eq_ok_iff hreordered.length_eq' (hreordered.le_word hword),
    hreordered.room_iff, exists_and_left, exists_eq]

variable {headers headers' : List Header}

/-- Headers that are handed out in two orders are the tables of both registries. -/
theorem headers_eq_tables (hreordered : Reordered first second lengths lengths')
    (hword : ∀ length ∈ lengths, length ≤ 64)
    (hfirst : first.allocateHeaders lengths = .ok headers)
    (hsecond : second.allocateHeaders lengths' = .ok headers') :
    headers = first.table lengths ∧ headers' = second.table lengths' := by
  have hword' := hreordered.le_word hword
  exact ⟨((first.allocateHeaders_eq_ok_iff hreordered.length_eq hword).mp hfirst).2,
    ((second.allocateHeaders_eq_ok_iff hreordered.length_eq' hword').mp hsecond).2⟩

/-- Every command keeps its header exactly when ties are kept. -/
theorem headerNamed?_eq_iff (hreordered : Reordered first second lengths lengths')
    (hword : ∀ length ∈ lengths, length ≤ 64)
    (hfirst : first.allocateHeaders lengths = .ok headers)
    (hsecond : second.allocateHeaders lengths' = .ok headers') :
    (∀ name, first.headerNamed? headers name = second.headerNamed? headers' name) ↔
      KeepsTies (first.commands.zip lengths) (second.commands.zip lengths') := by
  have hroom := ((first.allocateHeaders_eq_ok_iff hreordered.length_eq hword).mp hfirst).1
  obtain ⟨rfl, rfl⟩ := hreordered.headers_eq_tables hword hfirst hsecond
  constructor
  · intro hnames
    exact hreordered.keepsTies_of_order_eq (hreordered.order_eq_of_headers hword hroom.1 hnames)
  · intro hties name
    apply Option.ext
    intro header
    simp only [first.headerNamed?_table_iff hreordered.length_eq,
      second.headerNamed?_table_iff hreordered.length_eq', hreordered.order_eq hties,
      shortestLength_eq_of_perm hreordered.lengths_perm]

end Reordered

end CommandWord
