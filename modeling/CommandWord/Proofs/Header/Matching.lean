import CommandWord.Bits.Lemmas
import CommandWord.Header.Collision

/-!
Header tables that have passed the exhaustive check. In such a table every code leaves the
all-ones pattern of its length free, and a raw value matches at most one header.
-/

namespace CommandWord

namespace Header

theorem matches_iff {header : Header} {raw : UInt64} :
    header.Matches raw ↔ raw.toNat % 2 ^ header.length = header.code.toNat := by
  rw [Matches, ← UInt64.toNat_inj, toNat_and_lowMask]

/-- A code that fits is itself a raw value with its header. -/
theorem matches_code {header : Header} (hcode : header.code.toNat < 2 ^ header.length) :
    header.Matches header.code := by
  rw [matches_iff, Nat.mod_eq_of_lt hcode]

theorem isUsable_iff {header : Header} (hlength : header.length ≤ 64) :
    header.IsUsable ↔ header.code.toNat + 1 < 2 ^ header.length := by
  have hpos := Nat.two_pow_pos header.length
  rw [IsUsable, fits_iff_lt, ne_eq, ← UInt64.toNat_inj, toNat_lowMask, Nat.min_eq_left hlength]
  omega

/-- A usable code has a bit that is clear. -/
theorem length_pos_of_lt {header : Header} (hcode : header.code.toNat + 1 < 2 ^ header.length) :
    0 < header.length := by
  apply Nat.pos_of_ne_zero
  intro hzero
  rw [hzero] at hcode
  omega

/-- The collision test finds every raw value that two headers share. -/
theorem collides_of_matches {first second : Header} {raw : UInt64}
    (hfirst : first.Matches raw) (hsecond : second.Matches raw) : first.Collides second := by
  rw [matches_iff] at hfirst hsecond
  unfold Collides
  split
  next hle =>
    rw [matches_iff, ← hsecond, Nat.mod_mod_of_dvd _ (Nat.pow_dvd_pow 2 hle), hfirst]
  next hlt =>
    have hle : second.length ≤ first.length := by omega
    rw [matches_iff, ← hfirst, Nat.mod_mod_of_dvd _ (Nat.pow_dvd_pow 2 hle), hsecond]

/-- What the exhaustive check asks of a header table. -/
structure Unambiguous (headers : List Header) : Prop where
  usable : ∀ header ∈ headers, header.IsUsable
  apart : headers.Pairwise fun first second => ¬ first.Collides second

/-- In a checked table the place of a matching header is determined by the raw value. -/
theorem Unambiguous.place_unique {headers : List Header} (htable : Unambiguous headers)
    {raw : UInt64} {i j : Nat} {first second : Header} (hi : headers[i]? = some first)
    (hj : headers[j]? = some second) (hfirst : first.Matches raw)
    (hsecond : second.Matches raw) : i = j := by
  obtain ⟨hilt, rfl⟩ := List.getElem?_eq_some_iff.mp hi
  obtain ⟨hjlt, rfl⟩ := List.getElem?_eq_some_iff.mp hj
  have hapart := List.pairwise_iff_getElem.mp htable.apart
  rcases Nat.lt_trichotomy i j with hlt | heq | hgt
  · exact absurd (collides_of_matches hfirst hsecond) (hapart i j hilt hjlt hlt)
  · exact heq
  · exact absurd (collides_of_matches hsecond hfirst) (hapart j i hjlt hilt hgt)

theorem firstUnusable_eq_none_iff (table : List (Command × Header)) :
    firstUnusable table = none ↔ ∀ row ∈ table, row.2.IsUsable := by
  induction table with
  | nil => simp [firstUnusable]
  | cons row rest ih =>
    rw [firstUnusable, List.forall_mem_cons]
    split
    next husable => simp [husable, ih]
    next hunusable => simp [hunusable]

theorem firstCollision_eq_none_iff (table : List (Command × Header)) :
    firstCollision table = none ↔
      table.Pairwise fun first second => ¬ first.2.Collides second.2 := by
  induction table with
  | nil => simp [firstCollision]
  | cons row rest ih =>
    rw [firstCollision, List.pairwise_cons]
    split
    next other hfound =>
      have hmem := List.mem_of_find?_eq_some hfound
      have hcollides : row.2.Collides other.2 := by simpa using List.find?_some hfound
      simp only [reduceCtorEq, false_iff, not_and]
      exact fun hapart => absurd hcollides (hapart other hmem)
    next hnone =>
      have hapart : ∀ other ∈ rest, ¬ row.2.Collides other.2 := by
        simpa using List.find?_eq_none.mp hnone
      rw [ih]
      exact ⟨fun h => ⟨hapart, h⟩, And.right⟩

end Header

namespace Registry

/-- The check passes exactly on the unambiguous tables. -/
theorem checkHeaders_eq_ok_iff {registry : Registry} {headers : List Header}
    (hlength : headers.length ≤ registry.commands.length) :
    registry.checkHeaders headers = .ok () ↔ Header.Unambiguous headers := by
  have hheaders : (registry.commands.zip headers).map Prod.snd = headers :=
    List.map_snd_zip hlength
  have hok : registry.checkHeaders headers = .ok () ↔
      Header.firstUnusable (registry.commands.zip headers) = none ∧
        Header.firstCollision (registry.commands.zip headers) = none := by
    simp only [checkHeaders]
    cases Header.firstUnusable (registry.commands.zip headers) <;>
      cases Header.firstCollision (registry.commands.zip headers) <;> simp
  rw [hok, Header.firstUnusable_eq_none_iff, Header.firstCollision_eq_none_iff]
  constructor
  · rintro ⟨husable, hapart⟩
    rw [← hheaders]
    exact ⟨List.forall_mem_map.mpr husable, List.pairwise_map.mpr hapart⟩
  · intro htable
    rw [← hheaders] at htable
    exact ⟨List.forall_mem_map.mp htable.usable, List.pairwise_map.mp htable.apart⟩

end Registry

end CommandWord
