import CommandWord.Proofs.Header.Matching
import CommandWord.Proofs.Lists.FirstPlace
import CommandWord.Proofs.Registry.Validation

/-!
What the exhaustive check reports. To compare two codes once, under the shorter length, is to ask
whether any raw value at all matches both headers. The offence that the check names is the first
one: a code that is not proper on its own, at the lowest place; or else two headers that overlap,
at the lowest place of the earlier and then of the later one.
-/

namespace CommandWord

namespace Header

/-- The code is a number of as many bits as the header is long, and not the highest one that a
word can hold in them. -/
structure Proper (header : Header) : Prop where
  lt : header.code.toNat < 2 ^ header.length
  ne_highest : header.code.toNat ≠ 2 ^ min header.length 64 - 1

theorem isUsable_iff_proper {header : Header} : header.IsUsable ↔ header.Proper := by
  rw [IsUsable, fits_iff_lt, ne_eq, ← UInt64.toNat_inj, toNat_lowMask]
  exact ⟨fun husable => ⟨husable.1, husable.2⟩, fun hproper => ⟨hproper.lt, hproper.ne_highest⟩⟩

/-- A raw value matches both headers. -/
def Overlaps (first second : Header) : Prop :=
  ∃ raw : UInt64, first.Matches raw ∧ second.Matches raw

/-- A proper code is itself a raw value with this header, so the collision test misses nothing
and invents nothing. -/
theorem collides_iff_overlaps {first second : Header} (hfirst : first.Proper)
    (hsecond : second.Proper) : first.Collides second ↔ first.Overlaps second := by
  constructor
  · intro hcollides
    unfold Collides at hcollides
    split at hcollides
    · exact ⟨second.code, hcollides, matches_code hsecond.lt⟩
    · exact ⟨first.code, matches_code hfirst.lt, hcollides⟩
  · rintro ⟨raw, hraw, hraw'⟩
    exact collides_of_matches hraw hraw'

/-- The headers at two places of a table overlap. -/
def OverlapAt (headers : List Header) (i j : Nat) : Prop :=
  ∃ first second, headers[i]? = some first ∧ headers[j]? = some second ∧ first.Overlaps second

theorem overlapAt_zero {header : Header} {rest : List Header} {j : Nat} :
    OverlapAt (header :: rest) 0 (j + 1) ↔
      ∃ other, rest[j]? = some other ∧ header.Overlaps other := by
  simp [OverlapAt]

theorem overlapAt_succ {header : Header} {rest : List Header} {i j : Nat} :
    OverlapAt (header :: rest) (i + 1) (j + 1) ↔ OverlapAt rest i j := by
  simp [OverlapAt]

/-- The lowest place whose header is not proper. -/
abbrev FirstImproper : List Header → Nat → Header → Prop :=
  FirstPlace fun header => ¬ header.Proper

/-- The first two places whose headers overlap: no pair with a lower earlier place does, nor one
with the same earlier place and a lower later one. -/
structure FirstOverlap (headers : List Header) (i j : Nat) : Prop where
  lt : i < j
  overlap : OverlapAt headers i j
  least : ∀ k l, k < l → OverlapAt headers k l → i < k ∨ i = k ∧ j ≤ l

/-- A header that overlaps none behind it leaves the first overlap to the rest. -/
theorem FirstOverlap.cons {header : Header} {rest : List Header} {i j : Nat}
    (hapart : ∀ other ∈ rest, ¬ header.Overlaps other) (hrest : FirstOverlap rest i j) :
    FirstOverlap (header :: rest) (i + 1) (j + 1) := by
  refine ⟨Nat.succ_lt_succ hrest.lt, overlapAt_succ.mpr hrest.overlap, ?_⟩
  intro k l hkl hoverlap
  obtain ⟨l, rfl⟩ := Nat.exists_eq_add_one_of_ne_zero (by omega : l ≠ 0)
  cases k with
  | zero =>
    obtain ⟨other, hother, hshared⟩ := overlapAt_zero.mp hoverlap
    exact absurd hshared (hapart other (List.mem_of_getElem? hother))
  | succ k =>
    have hleast := hrest.least k l (by omega) (overlapAt_succ.mp hoverlap)
    omega

/-- A place that overlaps the head, with none before it that does. -/
theorem firstOverlap_head {header other : Header} {rest : List Header} {j : Nat}
    (hother : rest[j]? = some other) (hshared : header.Overlaps other)
    (hearlier : ∀ l < j, ∀ between, rest[l]? = some between → ¬ header.Overlaps between) :
    FirstOverlap (header :: rest) 0 (j + 1) := by
  refine ⟨by omega, overlapAt_zero.mpr ⟨other, hother, hshared⟩, ?_⟩
  intro k l hkl hoverlap
  obtain ⟨l, rfl⟩ := Nat.exists_eq_add_one_of_ne_zero (by omega : l ≠ 0)
  cases k with
  | zero =>
    obtain ⟨between, hbetween, hshared'⟩ := overlapAt_zero.mp hoverlap
    by_contra hbelow
    exact hearlier l (by omega) between hbetween hshared'
  | succ k => omega

theorem firstUnusable_eq_some {table : List (Command × Header)} {cause : ConfigurationError}
    (hfound : firstUnusable table = some cause) :
    ∃ i command header, FirstImproper (table.map Prod.snd) i header ∧
      table[i]? = some (command, header) ∧
      cause = .codeSpaceExhausted command.name header.length := by
  induction table with
  | nil => contradiction
  | cons row rest ih =>
    rw [firstUnusable] at hfound
    split at hfound
    next husable =>
      obtain ⟨i, command, header, hfirst, hrow, hcause⟩ := ih hfound
      have hproper : row.2.Proper := isUsable_iff_proper.mp husable
      exact ⟨i + 1, command, header, hfirst.tail (not_not.mpr hproper), by simpa using hrow,
        hcause⟩
    next hunusable =>
      have himproper : ¬ row.2.Proper := isUsable_iff_proper.not.mp hunusable
      exact ⟨0, row.1, row.2, .head himproper, rfl, (Option.some.inj hfound).symm⟩

theorem firstCollision_eq_some {table : List (Command × Header)} {cause : ConfigurationError}
    (hproper : ∀ row ∈ table, row.2.Proper) (hfound : firstCollision table = some cause) :
    ∃ i j first second, FirstOverlap (table.map Prod.snd) i j ∧ table[i]? = some first ∧
      table[j]? = some second ∧ cause = .headerCollision first.1.name second.1.name := by
  induction table with
  | nil => contradiction
  | cons row rest ih =>
    obtain ⟨hrow, hrest⟩ := List.forall_mem_cons.mp hproper
    have htest : ∀ other ∈ rest, row.2.Collides other.2 ↔ row.2.Overlaps other.2 :=
      fun other hother => collides_iff_overlaps hrow (hrest other hother)
    rw [firstCollision] at hfound
    split at hfound
    next other hother =>
      obtain ⟨hcollides, j, hj, hget, hearlier⟩ := List.find?_eq_some_iff_getElem.mp hother
      have hplace : rest[j]? = some other := by rw [List.getElem?_eq_getElem hj, hget]
      have hmem : other ∈ rest := List.mem_of_getElem? hplace
      have hshared : row.2.Overlaps other.2 := (htest other hmem).mp (by simpa using hcollides)
      refine ⟨0, j + 1, row, other, ?_, rfl, hplace, (Option.some.inj hfound).symm⟩
      refine firstOverlap_head (by rw [List.getElem?_map, hplace]; rfl) hshared ?_
      intro l hl between hbetween hoverlap
      rw [List.getElem?_map, Option.map_eq_some_iff] at hbetween
      obtain ⟨candidate, hcandidate, rfl⟩ := hbetween
      obtain ⟨hlt, rfl⟩ := List.getElem?_eq_some_iff.mp hcandidate
      have hno := hearlier l hl
      simp only [Bool.not_eq_true', decide_eq_false_iff_not] at hno
      exact hno ((htest _ (List.getElem_mem hlt)).mpr hoverlap)
    next hnone =>
      have hapart : ∀ other ∈ rest.map Prod.snd, ¬ row.2.Overlaps other := by
        intro header hmem hoverlap
        obtain ⟨other, hother, rfl⟩ := List.mem_map.mp hmem
        have hno := List.find?_eq_none.mp hnone other hother
        exact hno (decide_eq_true ((htest other hother).mpr hoverlap))
      obtain ⟨i, j, first, second, hfirst, hi, hj, hcause⟩ := ih hrest hfound
      exact ⟨i + 1, j + 1, first, second, hfirst.cons hapart, by simpa using hi,
        by simpa using hj, hcause⟩

/-- In a table of proper headers the places are apart when no raw value matches two of them. -/
theorem unambiguous_iff_overlapAt {headers : List Header} :
    Unambiguous headers ↔
      (∀ header ∈ headers, header.Proper) ∧ ∀ i j, i < j → ¬ OverlapAt headers i j := by
  constructor
  · intro htable
    refine ⟨fun header hmem => isUsable_iff_proper.mp (htable.usable header hmem), ?_⟩
    rintro i j hlt ⟨first, second, hi, hj, raw, hfirst, hsecond⟩
    have hplace := htable.place_unique hi hj hfirst hsecond
    omega
  · rintro ⟨hproper, hapart⟩
    refine ⟨fun header hmem => isUsable_iff_proper.mpr (hproper header hmem), ?_⟩
    rw [List.pairwise_iff_getElem]
    intro i j hi hj hlt hcollides
    have hshared := (collides_iff_overlaps (hproper _ (List.getElem_mem hi))
      (hproper _ (List.getElem_mem hj))).mp hcollides
    exact hapart i j hlt
      ⟨_, _, List.getElem?_eq_getElem hi, List.getElem?_eq_getElem hj, hshared⟩

end Header

namespace Registry

open Header

variable {registry : Registry} {headers : List Header}

theorem checkHeaders_of_improper (hlength : headers.length ≤ registry.commands.length)
    (himproper : ∃ header ∈ headers, ¬ header.Proper) :
    ∃ i command header, FirstImproper headers i header ∧ registry.commands[i]? = some command ∧
      registry.checkHeaders headers = .error (.codeSpaceExhausted command.name header.length) := by
  have hheaders : (registry.commands.zip headers).map Prod.snd = headers := List.map_snd_zip hlength
  obtain ⟨cause, hfound⟩ : ∃ cause, firstUnusable (registry.commands.zip headers) = some cause := by
    rw [← Option.ne_none_iff_exists', ne_eq, firstUnusable_eq_none_iff]
    intro husable
    obtain ⟨header, hmem, hnot⟩ := himproper
    rw [← hheaders] at hmem
    obtain ⟨row, hrow, rfl⟩ := List.mem_map.mp hmem
    exact hnot (isUsable_iff_proper.mp (husable row hrow))
  obtain ⟨i, command, header, hfirst, hrow, rfl⟩ := firstUnusable_eq_some hfound
  rw [hheaders] at hfirst
  refine ⟨i, command, header, hfirst, (List.getElem?_zip_eq_some.mp hrow).1, ?_⟩
  simp only [checkHeaders, hfound]
  rfl

theorem checkHeaders_of_proper (hlength : headers.length ≤ registry.commands.length)
    (hproper : ∀ header ∈ headers, header.Proper)
    (hfails : registry.checkHeaders headers ≠ .ok ()) :
    ∃ i j first second, FirstOverlap headers i j ∧ registry.commands[i]? = some first ∧
      registry.commands[j]? = some second ∧
      registry.checkHeaders headers = .error (.headerCollision first.name second.name) := by
  have hheaders : (registry.commands.zip headers).map Prod.snd = headers := List.map_snd_zip hlength
  have hrows : ∀ row ∈ registry.commands.zip headers, row.2.Proper := by
    rw [← hheaders] at hproper
    exact List.forall_mem_map.mp hproper
  have hnone : firstUnusable (registry.commands.zip headers) = none :=
    (firstUnusable_eq_none_iff _).mpr fun row hmem => isUsable_iff_proper.mpr (hrows row hmem)
  simp only [checkHeaders, hnone, Option.orElse_eq_orElse, Option.orElse_none] at hfails ⊢
  cases hcollision : firstCollision (registry.commands.zip headers) with
  | none =>
    rw [hcollision] at hfails
    exact absurd rfl hfails
  | some cause =>
    obtain ⟨i, j, first, second, hfirst, hi, hj, rfl⟩ := firstCollision_eq_some hrows hcollision
    rw [hheaders] at hfirst
    exact ⟨i, j, first.1, second.1, hfirst, (List.getElem?_zip_eq_some.mp hi).1,
      (List.getElem?_zip_eq_some.mp hj).1, rfl⟩

/-- The check passes exactly on the tables of proper headers of which no raw value matches two.
It reports the first header that is not proper or, if all of them are, the first two that
overlap. -/
theorem check_reports_first_offence (hlength : headers.length ≤ registry.commands.length) :
    (registry.checkHeaders headers = .ok () ↔
      (∀ header ∈ headers, header.Proper) ∧ ∀ i j, i < j → ¬ OverlapAt headers i j) ∧
    ((∃ header ∈ headers, ¬ header.Proper) →
      ∃ i command header, FirstImproper headers i header ∧ registry.commands[i]? = some command ∧
        registry.checkHeaders headers = .error (.codeSpaceExhausted command.name header.length)) ∧
    ((∀ header ∈ headers, header.Proper) → registry.checkHeaders headers ≠ .ok () →
      ∃ i j first second, FirstOverlap headers i j ∧ registry.commands[i]? = some first ∧
        registry.commands[j]? = some second ∧
        registry.checkHeaders headers = .error (.headerCollision first.name second.name)) :=
  ⟨(checkHeaders_eq_ok_iff hlength).trans unambiguous_iff_overlapAt,
    checkHeaders_of_improper hlength, checkHeaders_of_proper hlength⟩

/-- The first header overlaps the last one, whose length is beyond the word, across a header
that neither of them overlaps. -/
theorem check_reports_overlap_across_header :
    ∃ registry : Registry, registry.commands = [⟨"A", []⟩, ⟨"B", []⟩, ⟨"C", []⟩] ∧
      FirstOverlap [⟨0b01, 2⟩, ⟨0b1110, 4⟩, ⟨0b01010101, 70⟩] 0 2 ∧
      registry.checkHeaders [⟨0b01, 2⟩, ⟨0b1110, 4⟩, ⟨0b01010101, 70⟩] =
        .error (.headerCollision "A" "C") := by
  let registry : Registry := ⟨8, [⟨"A", []⟩, ⟨"B", []⟩, ⟨"C", []⟩], by decide⟩
  let headers : List Header := [⟨0b01, 2⟩, ⟨0b1110, 4⟩, ⟨0b01010101, 70⟩]
  have hlength : headers.length ≤ registry.commands.length := by decide
  have hcheck : registry.checkHeaders headers = .error (.headerCollision "A" "C") := rfl
  have hproper : ∀ header ∈ headers, header.Proper := by
    intro header hmem
    rw [← isUsable_iff_proper]
    revert header
    decide
  obtain ⟨i, j, first, second, hfirst, hi, hj, hreport⟩ :=
    (check_reports_first_offence hlength).2.2 hproper (by rw [hcheck]; nofun)
  obtain ⟨hfirstName, hsecondName⟩ :=
    ConfigurationError.headerCollision.inj (Except.error.inj (hcheck.symm.trans hreport))
  obtain rfl : i = 0 := by
    rcases i with _ | _ | _ | i <;> simp [registry] at hi <;> subst hi <;> simp at hfirstName ⊢
  obtain rfl : j = 2 := by
    rcases j with _ | _ | _ | j <;> simp [registry] at hj <;> subst hj <;> simp at hsecondName ⊢
  exact ⟨registry, rfl, hfirst, hcheck⟩

end Registry

end CommandWord
