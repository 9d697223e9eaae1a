import CommandWord.Proofs.Header.Table
import CommandWord.Proofs.Registry.Validation

/-!
Header allocation in closed form. With the requests in ascending order of length, number `i`
gives its request the reversal of `i` over the shortest length, whatever the lengths are. The
allocation fails at one of two numbers: the highest of the shortest length, if a request of that
length has it, and otherwise the first number that the shortest length has no bits for.
-/

namespace CommandWord

open Header

/-- How many lengths are the shortest. -/
def shortestTotal (lengths : List Nat) : Nat :=
  lengths.countP fun length => length = shortestLength lengths

namespace Header

/-- The first number that is blocked when so many requests have the shortest length. -/
def firstBlocked (shortest total : Nat) : Nat :=
  if 2 ^ shortest ≤ total then 2 ^ shortest - 1 else 2 ^ shortest

/-- In ascending order the blocked numbers begin at `firstBlocked`. -/
theorem find?_blocked_eq {shortest : Nat} {requests : List Request}
    (hsorted : requests.Pairwise fun first second => first.length ≤ second.length)
    (hshortest : ∀ request ∈ requests, shortest ≤ request.length) {number : Nat}
    (hnumber : number = firstBlocked shortest
      (requests.countP fun request => request.length = shortest)) {request : Request}
    (hrequest : requests[number]? = some request) :
    (requests.zipIdx.find? fun row => Blocked shortest row) = some (request, number) := by
  have hpos := Nat.two_pow_pos shortest
  obtain ⟨hlt, rfl⟩ := List.getElem?_eq_some_iff.mp hrequest
  have hblocked : ∀ i (hi : i < requests.length), Blocked shortest (requests[i], i) ↔
      2 ^ shortest ≤ i ∨ i < (requests.countP fun request => request.length = shortest) ∧
        i + 1 = 2 ^ shortest := by
    intro i hi
    simp only [Blocked, length_eq_iff_lt_countP hsorted hshortest hi]
  unfold firstBlocked at hnumber
  rw [List.find?_eq_some_iff_getElem]
  refine ⟨?_, number, by simpa using hlt, by simp, ?_⟩
  · rw [decide_eq_true_iff, hblocked number hlt]
    split at hnumber <;> omega
  · intro i hi
    rw [Bool.not_eq_true', decide_eq_false_iff_not]
    simp only [List.getElem_zipIdx, Nat.zero_add]
    rw [hblocked i (by omega)]
    split at hnumber <;> omega

theorem Request.id_eq_of_getElem? {commands : List Command} {lengths : List Nat}
    (hlengths : lengths.length = commands.length) {i : Nat} {request : Request}
    (hrequest : (ofCommands commands lengths)[i]? = some request) : request.id = i := by
  have hid := congrArg (·[i]?) (map_id_ofCommands hlengths)
  rw [List.getElem?_map, hrequest] at hid
  obtain ⟨hlt, hvalue⟩ := List.getElem?_eq_some_iff.mp hid.symm
  rw [List.getElem_range'] at hvalue
  omega

end Header

namespace Registry

variable (registry : Registry) {lengths : List Nat}

/-- The requests for these lengths in ascending order, equal lengths in registry order. -/
structure Ascending (lengths : List Nat) (order : List Request) : Prop where
  perm : order.Perm (Request.ofCommands registry.commands lengths)
  sorted : order.Pairwise fun first second => first.Precedes second

/-- The commands are numbered in ascending order. -/
theorem ascending_numbering (hlengths : lengths.length = registry.commands.length) :
    registry.Ascending lengths (registry.numbering lengths) :=
  ⟨registry.numbering_perm lengths, registry.numbering_sorted hlengths⟩

variable {registry}

/-- There is one ascending order, because no two requests have the same place. -/
theorem Ascending.eq_numbering {order : List Request}
    (hlengths : lengths.length = registry.commands.length)
    (horder : registry.Ascending lengths order) : order = registry.numbering lengths := by
  have hnumbering := registry.ascending_numbering hlengths
  refine List.Perm.eq_of_pairwise ?_ horder.sorted hnumbering.sorted
    (horder.perm.trans hnumbering.perm.symm)
  intro first second hfirst hsecond hle hge
  have hid : first.id = second.id := by
    unfold Request.Precedes at hle hge
    omega
  exact Request.eq_of_id_eq hlengths (horder.perm.mem_iff.mp hfirst)
    (hnumbering.perm.mem_iff.mp hsecond) hid

variable (registry)

theorem length_numbering (hlengths : lengths.length = registry.commands.length) :
    (registry.numbering lengths).length = registry.commands.length := by
  rw [(registry.numbering_perm lengths).length_eq, ← List.length_map Request.id,
    Request.map_id_ofCommands hlengths, List.length_range']

theorem countP_numbering (hlengths : lengths.length = registry.commands.length) :
    ((registry.numbering lengths).countP fun request =>
      request.length = shortestLength lengths) = shortestTotal lengths := by
  rw [shortestTotal, ← (registry.map_length_numbering hlengths).countP_eq, List.countP_map]
  rfl

/-- Which request finds no code, if one does not. -/
theorem blockedRow?_eq (hlengths : lengths.length = registry.commands.length) {number : Nat}
    (hnumber : number = firstBlocked (shortestLength lengths) (shortestTotal lengths))
    {request : Request} (hrequest : (registry.numbering lengths)[number]? = some request) :
    registry.blockedRow? lengths = some (request, number) := by
  rw [← registry.countP_numbering hlengths] at hnumber
  refine find?_blocked_eq ?_ ?_ hnumber hrequest
  · exact (registry.numbering_sorted hlengths).imp Request.Precedes.length_le
  · intro other hmem
    exact shortestLength_le
      ((registry.map_length_numbering hlengths).mem_iff.mp (List.mem_map_of_mem hmem))

/-- What the table holds at the place of a request, by its number. -/
theorem getElem?_table (hlengths : lengths.length = registry.commands.length) {number : Nat}
    {request : Request} (hrequest : (registry.numbering lengths)[number]? = some request) :
    (registry.table lengths)[request.id]? =
      some ⟨reverseBits number.toUInt64 (shortestLength lengths), request.length⟩ := by
  have hmem : numbered (shortestLength lengths) (request, number) ∈ registry.rows lengths := by
    rw [rows, List.mem_mergeSort]
    exact List.mem_map_of_mem (List.mem_zipIdx_iff_getElem?.mpr hrequest)
  obtain ⟨place, hplace⟩ := List.mem_iff_getElem?.mp hmem
  have hfst := congrArg (·[place]?) (registry.map_fst_rows hlengths)
  simp only [List.getElem?_map, hplace, Option.map_some] at hfst
  have hid : request.id = place := Request.id_eq_of_getElem? hlengths hfst.symm
  rw [hid, table, List.getElem?_map, hplace]
  rfl

theorem allocateHeaders_of_blocked (hlengths : lengths.length = registry.commands.length)
    (hword : ∀ length ∈ lengths, length ≤ 64)
    (hshort : firstBlocked (shortestLength lengths) (shortestTotal lengths) <
      registry.commands.length) :
    ∃ request, (registry.numbering lengths)[firstBlocked (shortestLength lengths)
        (shortestTotal lengths)]? = some request ∧
      registry.allocateHeaders lengths =
        .error (.codeSpaceExhausted request.command.name request.length) := by
  rw [← registry.length_numbering hlengths] at hshort
  have hrequest := List.getElem?_eq_getElem hshort
  refine ⟨_, hrequest, ?_⟩
  rw [registry.allocateHeaders_eq hlengths hword, registry.blockedRow?_eq hlengths rfl hrequest]

theorem allocateHeaders_of_room (hlengths : lengths.length = registry.commands.length)
    (hword : ∀ length ∈ lengths, length ≤ 64)
    (hroom : registry.commands.length ≤ 2 ^ shortestLength lengths ∧
      shortestTotal lengths < 2 ^ shortestLength lengths) :
    registry.allocateHeaders lengths = .ok (registry.table lengths) := by
  rw [registry.allocateHeaders_eq hlengths hword,
    (registry.blockedRow?_eq_none_iff hlengths).mpr hroom]

/-- An allocation succeeds exactly when the counts leave room, and then number `i` gives its
request the reversal of `i` over the shortest length. Without room it names the request with the
highest number of the shortest length, if that length has so many, and otherwise the one with
the first number beyond. -/
theorem allocation_closed_form {registry : Registry} {order : List Request}
    (hlengths : lengths.length = registry.commands.length)
    (hword : ∀ length ∈ lengths, length ≤ 64) (horder : registry.Ascending lengths order) :
    ((∃ headers, registry.allocateHeaders lengths = .ok headers) ↔
      registry.commands.length ≤ 2 ^ shortestLength lengths ∧
        shortestTotal lengths < 2 ^ shortestLength lengths) ∧
    (∀ headers, registry.allocateHeaders lengths = .ok headers →
      headers.length = registry.commands.length ∧
        ∀ (i : Nat) (request : Request), order[i]? = some request → headers[request.id]? =
          some ⟨reverseBits i.toUInt64 (shortestLength lengths), request.length⟩) ∧
    (2 ^ shortestLength lengths ≤ shortestTotal lengths →
      ∃ request, order[2 ^ shortestLength lengths - 1]? = some request ∧
        registry.allocateHeaders lengths =
          .error (.codeSpaceExhausted request.command.name request.length)) ∧
    (shortestTotal lengths < 2 ^ shortestLength lengths →
      2 ^ shortestLength lengths < registry.commands.length →
      ∃ request, order[2 ^ shortestLength lengths]? = some request ∧
        registry.allocateHeaders lengths =
          .error (.codeSpaceExhausted request.command.name request.length)) ∧
    ∀ first second, registry.allocateHeaders lengths ≠ .error (.headerCollision first second) := by
  obtain rfl := horder.eq_numbering hlengths
  have hpos := Nat.two_pow_pos (shortestLength lengths)
  have htotal : shortestTotal lengths ≤ registry.commands.length :=
    hlengths ▸ List.countP_le_length
  have hroom := registry.allocateHeaders_of_room hlengths hword
  have hblocked := registry.allocateHeaders_of_blocked hlengths hword
  unfold firstBlocked at hblocked
  by_cases hfull : 2 ^ shortestLength lengths ≤ shortestTotal lengths
  · rw [if_pos hfull] at hblocked
    obtain ⟨request, hrequest, herror⟩ := hblocked (by omega)
    rw [herror]
    refine ⟨⟨nofun, fun ⟨_, hspare⟩ => ?_⟩, nofun, fun _ => ⟨request, hrequest, rfl⟩,
      fun hspare => ?_, nofun⟩
    · omega
    · omega
  rw [if_neg hfull] at hblocked
  by_cases hover : 2 ^ shortestLength lengths < registry.commands.length
  · obtain ⟨request, hrequest, herror⟩ := hblocked hover
    rw [herror]
    refine ⟨⟨nofun, fun ⟨hfits, _⟩ => ?_⟩, nofun, fun hspare => ?_,
      fun _ _ => ⟨request, hrequest, rfl⟩, nofun⟩
    · omega
    · omega
  · have hcounts : registry.commands.length ≤ 2 ^ shortestLength lengths ∧
        shortestTotal lengths < 2 ^ shortestLength lengths := by omega
    rw [hroom hcounts]
    refine ⟨⟨fun _ => hcounts, fun _ => ⟨_, rfl⟩⟩, ?_, fun hspare => ?_, fun _ hless => ?_, nofun⟩
    · intro headers hok
      rw [← Except.ok.inj hok]
      refine ⟨?_, fun i request => registry.getElem?_table hlengths⟩
      rw [← hlengths, ← List.length_map Header.length, registry.map_length_table hlengths]
    · omega
    · omega

/-- The longer headers come first in the registry and last in the numbering, and they have codes
of two bits. -/
theorem allocation_closed_form_of_three :
    ∃ registry : Registry, registry.commands = [⟨"L1", []⟩, ⟨"L2", []⟩, ⟨"S", [1]⟩] ∧
      registry.Ascending [3, 3, 2]
        [⟨2, ⟨"S", [1]⟩, 2⟩, ⟨0, ⟨"L1", []⟩, 3⟩, ⟨1, ⟨"L2", []⟩, 3⟩] ∧
      ∃ headers, registry.allocateHeaders [3, 3, 2] = .ok headers ∧
        headers[2]? = some ⟨0b00, 2⟩ ∧ headers[0]? = some ⟨0b10, 3⟩ ∧
        headers[1]? = some ⟨0b01, 3⟩ := by
  let registry : Registry := ⟨3, [⟨"L1", []⟩, ⟨"L2", []⟩, ⟨"S", [1]⟩], by decide⟩
  have horder : registry.Ascending [3, 3, 2]
      [⟨2, ⟨"S", [1]⟩, 2⟩, ⟨0, ⟨"L1", []⟩, 3⟩, ⟨1, ⟨"L2", []⟩, 3⟩] :=
    ⟨by decide, by decide⟩
  obtain ⟨hok, hcodes, -⟩ := allocation_closed_form (by decide) (by decide) horder
  obtain ⟨headers, hheaders⟩ := hok.mpr (by decide)
  obtain ⟨-, hcode⟩ := hcodes headers hheaders
  exact ⟨registry, rfl, horder, headers, hheaders, hcode 0 _ rfl, hcode 1 _ rfl, hcode 2 _ rfl⟩

end Registry

end CommandWord
