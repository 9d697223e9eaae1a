import CommandWord.Proofs.Header.Allocation

/-!
The header table of a registry. An allocation either names the first request whose number is
blocked or hands out the whole table; the exhaustive check at its end always passes.
-/

namespace CommandWord

open Header

/-- The smallest of the lengths. -/
def shortestLength (lengths : List Nat) : Nat :=
  lengths.min?.getD 0

theorem shortestLength_le {lengths : List Nat} {length : Nat} (hmem : length ∈ lengths) :
    shortestLength lengths ≤ length := by
  unfold shortestLength
  cases hmin : lengths.min? with
  | none => simp
  | some shortest => exact (List.min?_eq_some_iff.mp hmin).2 length hmem

theorem shortestLength_mem {lengths : List Nat} (hnil : lengths ≠ []) :
    shortestLength lengths ∈ lengths := by
  obtain ⟨shortest, hmin⟩ := Option.isSome_iff_exists.mp (List.isSome_min?_of_ne_nil hnil)
  rw [shortestLength, hmin]
  exact (List.min?_eq_some_iff.mp hmin).1

namespace Registry

variable (registry : Registry) {lengths : List Nat}

/-- What the numbering gives the requests, in registry order. -/
def rows (lengths : List Nat) : List (Request × Header) :=
  ((registry.numbering lengths).zipIdx.map (numbered (shortestLength lengths))).mergeSort
    fun first second => first.1.id ≤ second.1.id

def table (lengths : List Nat) : List Header :=
  (registry.rows lengths).map Prod.snd

/-- The number of the first request that finds no code. -/
def blockedRow? (lengths : List Nat) : Option (Request × Nat) :=
  (registry.numbering lengths).zipIdx.find? fun row => Blocked (shortestLength lengths) row

theorem head_numbering (hlengths : lengths.length = registry.commands.length) :
    (registry.numbering lengths).head?.elim 0 Request.length = shortestLength lengths := by
  have hperm := registry.map_length_numbering hlengths
  have hsorted := registry.numbering_sorted hlengths
  cases hnumbering : registry.numbering lengths with
  | nil =>
    rw [hnumbering, List.map_nil, List.nil_perm] at hperm
    subst hperm
    rfl
  | cons request rest =>
    rw [hnumbering] at hperm hsorted
    have hmin : lengths.min? = some request.length := by
      rw [List.min?_eq_some_iff]
      refine ⟨hperm.mem_iff.mp (by simp), ?_⟩
      intro length hmem
      obtain ⟨other, hother, rfl⟩ := List.mem_map.mp (hperm.mem_iff.mpr hmem)
      rcases List.mem_cons.mp hother with rfl | hother
      · exact Nat.le_refl _
      · exact ((List.pairwise_cons.mp hsorted).1 other hother).length_le
    simp [shortestLength, hmin]

theorem length_bounds_of_mem (hlengths : lengths.length = registry.commands.length)
    (hword : ∀ length ∈ lengths, length ≤ 64) :
    ∀ request ∈ registry.numbering lengths,
      shortestLength lengths ≤ request.length ∧ request.length ≤ 64 := by
  intro request hmem
  have hlength : request.length ∈ lengths :=
    (registry.map_length_numbering hlengths).mem_iff.mp (List.mem_map_of_mem hmem)
  exact ⟨shortestLength_le hlength, hword _ hlength⟩

/-- The numbered requests, arranged, are the table. -/
theorem arrange_numbering (hlengths : lengths.length = registry.commands.length) :
    arrange lengths.length ((registry.numbering lengths).zipIdx.map
      (numbered (shortestLength lengths))) = registry.table lengths := by
  apply arrange_eq
  have hids : ((registry.numbering lengths).zipIdx.map
      (numbered (shortestLength lengths))).map (·.1.id) =
        (registry.numbering lengths).map Request.id := by
    rw [List.map_map]
    calc (registry.numbering lengths).zipIdx.map (fun row => row.1.id)
        = ((registry.numbering lengths).zipIdx.map Prod.fst).map Request.id := by
          rw [List.map_map]
          rfl
      _ = (registry.numbering lengths).map Request.id := by rw [List.zipIdx_map_fst]
  rw [hids, hlengths, List.range_eq_range', ← Request.map_id_ofCommands hlengths]
  exact (registry.numbering_perm lengths).map Request.id

theorem map_fst_rows (hlengths : lengths.length = registry.commands.length) :
    (registry.rows lengths).map Prod.fst = Request.ofCommands registry.commands lengths := by
  apply Request.map_fst_mergeSort hlengths
  have hfst : ((registry.numbering lengths).zipIdx.map
      (numbered (shortestLength lengths))).map Prod.fst = registry.numbering lengths := by
    rw [List.map_map]
    exact List.zipIdx_map_fst 0 _
  rw [hfst]
  exact registry.numbering_perm lengths

/-- The table keeps the lengths that were asked for. -/
theorem map_length_table (hlengths : lengths.length = registry.commands.length) :
    (registry.table lengths).map Header.length = lengths := by
  have hrow : ∀ row ∈ registry.rows lengths, row.2.length = row.1.length := by
    intro row hmem
    obtain ⟨source, -, rfl⟩ := List.mem_map.mp (List.mem_mergeSort.mp hmem)
    rfl
  calc (registry.table lengths).map Header.length
      = (registry.rows lengths).map fun row => row.1.length := by
        rw [table, List.map_map]
        exact List.map_congr_left hrow
    _ = ((registry.rows lengths).map Prod.fst).map Request.length := by
        rw [List.map_map]
        rfl
    _ = lengths := by
        rw [registry.map_fst_rows hlengths, Request.map_length_ofCommands hlengths]

theorem length_table (hlengths : lengths.length = registry.commands.length) :
    (registry.table lengths).length = registry.commands.length := by
  rw [← hlengths, ← List.length_map Header.length, registry.map_length_table hlengths]

theorem table_unambiguous (hlengths : lengths.length = registry.commands.length)
    (hword : ∀ length ∈ lengths, length ≤ 64) (hfree : registry.blockedRow? lengths = none) :
    Unambiguous (registry.table lengths) := by
  refine unambiguous_of_perm (registry.length_bounds_of_mem hlengths hword) ?_
    (List.mergeSort_perm _ _)
  simpa [blockedRow?] using List.find?_eq_none.mp hfree

/-- An allocation ends with the table, unless a number is blocked. -/
theorem allocateHeaders_eq (hlengths : lengths.length = registry.commands.length)
    (hword : ∀ length ∈ lengths, length ≤ 64) :
    registry.allocateHeaders lengths =
      match registry.blockedRow? lengths with
      | some row => .error (.codeSpaceExhausted row.1.command.name row.1.length)
      | none => .ok (registry.table lengths) := by
  have hbounds := registry.length_bounds_of_mem hlengths hword
  have hstart : (⟨-1, (registry.numbering lengths).head?.elim 0 Request.length⟩ : Counter) =
      .before (shortestLength lengths) 0 := by
    rw [registry.head_numbering hlengths]
    rfl
  simp only [allocateHeaders, hstart, assign_eq 0 hbounds, bind, Except.bind]
  cases hblocked : registry.blockedRow? lengths with
  | some row =>
    rw [blockedRow?] at hblocked
    rw [hblocked]
  | none =>
    have hcheck := (checkHeaders_eq_ok_iff (Nat.le_of_eq (registry.length_table hlengths))).mpr
      (registry.table_unambiguous hlengths hword hblocked)
    rw [blockedRow?] at hblocked
    rw [hblocked]
    simp only [registry.arrange_numbering hlengths, hcheck, pure, Except.pure]

/-- Whether every number finds a code is a matter of counting. -/
theorem blockedRow?_eq_none_iff (hlengths : lengths.length = registry.commands.length) :
    registry.blockedRow? lengths = none ↔
      registry.commands.length ≤ 2 ^ shortestLength lengths ∧
        (lengths.countP fun length => length = shortestLength lengths) <
          2 ^ shortestLength lengths := by
  have hperm := registry.map_length_numbering hlengths
  have hsize : (registry.numbering lengths).length = registry.commands.length := by
    rw [← hlengths, ← hperm.length_eq, List.length_map]
  have hcount : ((registry.numbering lengths).countP fun request =>
      request.length = shortestLength lengths) =
        lengths.countP fun length => length = shortestLength lengths := by
    rw [← hperm.countP_eq, List.countP_map]
    rfl
  rw [← hcount, ← hsize]
  refine find?_blocked_eq_none_iff ?_ ?_
  · exact (registry.numbering_sorted hlengths).imp Request.Precedes.length_le
  · intro request hmem
    exact shortestLength_le (hperm.mem_iff.mp (List.mem_map_of_mem hmem))

end Registry

end CommandWord
