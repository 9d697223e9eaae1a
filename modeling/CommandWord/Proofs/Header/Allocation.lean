import CommandWord.Proofs.Bits.Reversal
import CommandWord.Proofs.Header.Matching
import CommandWord.Proofs.Header.Numbering

/-!
When there are codes enough. In ascending order no length is below the counter's width, so the
counter is never narrowed and gives the requests the numbers from zero on. The allocation stops at
the first number that is blocked, and whether one is blocked is a matter of two counts: how many
headers there are and how many have the shortest length. A finished table is unambiguous, so the
exhaustive check never fails on it.
-/

namespace CommandWord

namespace Header

/-- No code is left for the request: the shortest length has no bits for the number, or its code
would have all of the request's own bits set. -/
def Blocked (shortest : Nat) (row : Request × Nat) : Prop :=
  2 ^ shortest ≤ row.2 ∨ row.1.length = shortest ∧ row.2 + 1 = 2 ^ shortest

instance (shortest : Nat) (row : Request × Nat) : Decidable (Blocked shortest row) := by
  unfold Blocked
  infer_instance

theorem lt_of_not_blocked {shortest : Nat} {row : Request × Nat} (hfree : ¬ Blocked shortest row) :
    row.2 < 2 ^ shortest := by
  unfold Blocked at hfree
  omega

/-- The header that a number gives a request. -/
def numbered (shortest : Nat) (row : Request × Nat) : Request × Header :=
  (row.1, ⟨reverseBits row.2.toUInt64 shortest, row.1.length⟩)

theorem blocked_iff {shortest number length : Nat} (hle : shortest ≤ length)
    (hword : length ≤ 64) :
    1 <<< shortest ≤ number ∨ reverseBits number.toUInt64 shortest = lowMask length ↔
      2 ^ shortest ≤ number ∨ length = shortest ∧ number + 1 = 2 ^ shortest := by
  rw [Nat.one_shiftLeft]
  by_cases hnumber : 2 ^ shortest ≤ number
  · simp [hnumber]
  · have hlt : number < 2 ^ shortest := by omega
    have hcode := toNat_reverseBits_toUInt64 (by omega) hlt
    have hcodelt := reversal_lt shortest number
    simp only [hnumber, false_or, ← UInt64.toNat_inj, hcode, toNat_lowMask,
      Nat.min_eq_left hword]
    by_cases heq : length = shortest
    · subst heq
      rw [reversal_eq_allOnes_iff hlt]
      omega
    · -- the code of a longer header has clear bits above the shortest length
      have hpow : 2 ^ shortest < 2 ^ length := Nat.pow_lt_pow_right (by omega) (by omega)
      simp only [heq, false_and, iff_false]
      omega

/-- The counter that gives the number `next` to the next request. -/
def Counter.before (width next : Nat) : Counter := ⟨(next : Int) - 1, width⟩

/-- A length that is not below the width takes one number and leaves the width as it is. -/
theorem Counter.advance_before {width length : Nat} (hle : width ≤ length) (next : Nat) :
    (before width next).advance length = before width (next + 1) := by
  have hlast : (next : Int) - 1 + 1 = ((next + 1 : Nat) : Int) - 1 := by omega
  simp only [advance, before, if_neg (Nat.not_lt.mpr hle), hlast]

theorem Counter.last_before (width next : Nat) : (before width (next + 1)).last = next := by
  simp only [before]
  omega

theorem Counter.code_before (width next : Nat) :
    (before width (next + 1)).code = reverseBits next.toUInt64 width := by
  have hword : UInt64.ofInt (next : Int) = next.toUInt64 := by
    rw [← UInt64.toNat_inj, UInt64.ofInt]
    simp only [UInt64.toNat_ofNat', Nat.toUInt64]
    omega
  rw [code, last_before, hword]
  rfl

/-- The first blocked number stops the allocation; without one, every request gets its code. -/
theorem assign_eq {shortest : Nat} (next : Nat) {requests : List Request}
    (hlength : ∀ request ∈ requests, shortest ≤ request.length ∧ request.length ≤ 64) :
    assign (.before shortest next) requests =
      match (requests.zipIdx next).find? fun row => Blocked shortest row with
      | some row => .error (.codeSpaceExhausted row.1.command.name row.1.length)
      | none => .ok ((requests.zipIdx next).map (numbered shortest)) := by
  induction requests generalizing next with
  | nil => rfl
  | cons request rest ih =>
    obtain ⟨hfirst, hrest⟩ := List.forall_mem_cons.mp hlength
    have hwidth : (Counter.before shortest (next + 1)).width = shortest := rfl
    have hblocked : _ ↔ Blocked shortest (request, next) := blocked_iff hfirst.1 hfirst.2
    simp only [assign, Counter.advance_before hfirst.1, Counter.last_before, Counter.code_before,
      hwidth, Int.ofNat_eq_natCast, Int.ofNat_le, hblocked, List.zipIdx_cons, List.find?_cons]
    by_cases hnow : Blocked shortest (request, next)
    · rw [if_pos hnow, decide_eq_true hnow]
    · rw [if_neg hnow, decide_eq_false hnow, ih (next + 1) hrest]
      cases (rest.zipIdx (next + 1)).find? fun row => Blocked shortest row <;> rfl

/-- In ascending order the requests of the shortest length come first. -/
theorem length_eq_iff_lt_countP {shortest : Nat} {requests : List Request}
    (hsorted : requests.Pairwise fun first second => first.length ≤ second.length)
    (hshortest : ∀ request ∈ requests, shortest ≤ request.length) {i : Nat}
    (hi : i < requests.length) :
    requests[i].length = shortest ↔
      i < requests.countP fun request => request.length = shortest := by
  induction requests generalizing i with
  | nil => simp at hi
  | cons request rest ih =>
    obtain ⟨hfirst, hrest⟩ := List.forall_mem_cons.mp hshortest
    obtain ⟨hle, htail⟩ := List.pairwise_cons.mp hsorted
    by_cases heq : request.length = shortest
    · cases i with
      | zero => simp [heq]
      | succ i => simpa [heq] using ih htail hrest (by simpa using hi)
    · -- a longer header first leaves none of the shortest length
      have hlonger : ∀ other ∈ request :: rest, other.length ≠ shortest := by
        intro other hmem
        rcases List.mem_cons.mp hmem with rfl | hmem
        · exact heq
        · have := hle other hmem
          omega
      have hnone : ((request :: rest).countP fun other => other.length = shortest) = 0 := by
        rw [List.countP_eq_zero]
        simpa using hlonger
      rw [hnone]
      simpa using hlonger _ (List.getElem_mem hi)

/-- Counting decides: `2 ^ shortest` numbers in all, one of them not for the shortest length. -/
theorem find?_blocked_eq_none_iff {shortest : Nat} {requests : List Request}
    (hsorted : requests.Pairwise fun first second => first.length ≤ second.length)
    (hshortest : ∀ request ∈ requests, shortest ≤ request.length) :
    (requests.zipIdx.find? fun row => Blocked shortest row) = none ↔
      requests.length ≤ 2 ^ shortest ∧
        (requests.countP fun request => request.length = shortest) < 2 ^ shortest := by
  have hpos := Nat.two_pow_pos shortest
  have hcount := List.countP_le_length (p := fun request : Request => request.length = shortest)
    (l := requests)
  rw [List.find?_eq_none]
  constructor
  · intro hfree
    have hnumber : ∀ i (hi : i < requests.length), ¬ Blocked shortest (requests[i], i) := by
      intro i hi
      have hrow := hfree (requests[i], i) (List.mem_zipIdx_iff_getElem?.mpr (by simp))
      simpa using hrow
    simp only [Blocked] at hnumber
    constructor
    · by_contra hover
      exact hnumber (2 ^ shortest) (by omega) (Or.inl (Nat.le_refl _))
    · by_contra hover
      have hlast : 2 ^ shortest - 1 < requests.length := by omega
      refine hnumber _ hlast (Or.inr ⟨?_, by omega⟩)
      exact (length_eq_iff_lt_countP hsorted hshortest hlast).mpr (by omega)
  · rintro ⟨hroom, hspare⟩ ⟨request, i⟩ hmem hblocked
    obtain ⟨hi, hrequest⟩ := List.getElem?_eq_some_iff.mp (List.mem_zipIdx_iff_getElem?.mp hmem)
    simp only at hi hrequest
    subst hrequest
    have hblocked' : 2 ^ shortest ≤ i ∨
        requests[i].length = shortest ∧ i + 1 = 2 ^ shortest := of_decide_eq_true hblocked
    rw [length_eq_iff_lt_countP hsorted hshortest hi] at hblocked'
    omega

/-- Below the shortest length, different codes tell two headers apart. -/
theorem not_collides_of_ne {shortest : Nat} {first second : Header}
    (hfirst : first.code.toNat < 2 ^ shortest) (hsecond : second.code.toNat < 2 ^ shortest)
    (hfirstle : shortest ≤ first.length) (hsecondle : shortest ≤ second.length)
    (hne : first.code ≠ second.code) : ¬ first.Collides second := by
  have hpow : 2 ^ shortest ≤ 2 ^ first.length := Nat.pow_le_pow_right (by omega) hfirstle
  have hpow' : 2 ^ shortest ≤ 2 ^ second.length := Nat.pow_le_pow_right (by omega) hsecondle
  intro hcollides
  apply hne
  rw [← UInt64.toNat_inj]
  unfold Collides at hcollides
  split at hcollides
  · rw [matches_iff, Nat.mod_eq_of_lt (by omega)] at hcollides
    exact hcollides.symm
  · rwa [matches_iff, Nat.mod_eq_of_lt (by omega)] at hcollides

variable {shortest : Nat} {requests : List Request}

/-- What a number that is not blocked gives a request of at least the shortest length. -/
theorem numbered_spec {row : Request × Nat}
    (hlength : shortest ≤ row.1.length ∧ row.1.length ≤ 64) (hfree : ¬ Blocked shortest row) :
    (numbered shortest row).2.code.toNat = reversal shortest row.2 ∧
      (numbered shortest row).2.IsUsable := by
  have hlt := lt_of_not_blocked hfree
  have hcode : (numbered shortest row).2.code.toNat = reversal shortest row.2 :=
    toNat_reverseBits_toUInt64 (by omega) hlt
  refine ⟨hcode, ?_⟩
  have hbound := reversal_lt shortest row.2
  rw [isUsable_iff hlength.2, hcode]
  change reversal shortest row.2 + 1 < 2 ^ row.1.length
  by_cases heq : row.1.length = shortest
  · have hne : reversal shortest row.2 ≠ 2 ^ shortest - 1 := by
      rw [ne_eq, reversal_eq_allOnes_iff hlt]
      intro hlast
      exact hfree (Or.inr ⟨heq, by omega⟩)
    rw [heq]
    omega
  · have hpow : 2 ^ shortest < 2 ^ row.1.length := Nat.pow_lt_pow_right (by omega) (by omega)
    omega

/-- Rows without a blocked number form an unambiguous table, in whatever order. -/
theorem unambiguous_of_perm {rows : List (Request × Header)}
    (hlength : ∀ request ∈ requests, shortest ≤ request.length ∧ request.length ≤ 64)
    (hfree : ∀ row ∈ requests.zipIdx, ¬ Blocked shortest row)
    (hperm : rows.Perm (requests.zipIdx.map (numbered shortest))) :
    Unambiguous (rows.map Prod.snd) := by
  have hrow : ∀ row ∈ requests.zipIdx, shortest ≤ row.1.length ∧ row.1.length ≤ 64 :=
    fun row hmem => hlength row.1 (List.mem_of_getElem? (List.mem_zipIdx_iff_getElem?.mp hmem))
  have hspec := fun row hmem => numbered_spec (hrow row hmem) (hfree row hmem)
  have horigin : ∀ header ∈ rows.map Prod.snd,
      ∃ row ∈ requests.zipIdx, (numbered shortest row).2 = header := by
    intro header hmem
    obtain ⟨assigned, hassigned, rfl⟩ := List.mem_map.mp hmem
    obtain ⟨row, hrow, rfl⟩ := List.mem_map.mp (hperm.mem_iff.mp hassigned)
    exact ⟨row, hrow, rfl⟩
  -- reversal keeps the numbers apart, all of them being below `2 ^ shortest`
  have hcodes : ((requests.zipIdx.map (numbered shortest)).map (·.2.code)).Nodup := by
    have hnumbers : (requests.zipIdx.map Prod.snd).Nodup := by
      rw [List.zipIdx_map_snd]
      exact List.nodup_range'
    rw [List.map_map]
    refine List.Nodup.map_on ?_ (List.Nodup.of_map Prod.snd hnumbers)
    intro first hfirst second hsecond heq
    apply List.inj_on_of_nodup_map hnumbers hfirst hsecond
    apply reversal_injective (lt_of_not_blocked (hfree first hfirst))
      (lt_of_not_blocked (hfree second hsecond))
    rw [← (hspec first hfirst).1, ← (hspec second hsecond).1]
    exact congrArg UInt64.toNat heq
  constructor
  · intro header hmem
    obtain ⟨row, hrow, rfl⟩ := horigin header hmem
    exact (hspec row hrow).2
  · have hdistinct : (rows.map Prod.snd).Pairwise fun first second => first.code ≠ second.code := by
      have hnodup := ((hperm.map (·.2.code)).nodup_iff).mpr hcodes
      rw [List.pairwise_map]
      exact List.pairwise_map.mp hnodup
    refine hdistinct.imp_of_mem ?_
    intro first second hfirst hsecond hne
    obtain ⟨row, hmem, rfl⟩ := horigin first hfirst
    obtain ⟨row', hmem', rfl⟩ := horigin second hsecond
    have hcode := reversal_lt shortest row.2
    have hcode' := reversal_lt shortest row'.2
    rw [← (hspec row hmem).1] at hcode
    rw [← (hspec row' hmem').1] at hcode'
    exact not_collides_of_ne hcode hcode' (hrow row hmem).1 (hrow row' hmem').1 hne

end Header

end CommandWord
