import CommandWord.Command
import Mathlib

/-!
Variants and canonical names tell the same names apart. The canonical name is the variant spelled
out: a capital letter that is not the first character began a part and gets its underscore back,
and a part that begins with a digit has none to get. Nothing is lost on the way, because no
underscore stands in a variant and no small letter begins one.
-/

namespace CommandWord

/-! ### Letters -/

/-- Other characters have one case only. -/
theorem cases_eq_of_not_isAlpha {c : Char} (hletter : ¬ c.isAlpha) :
    c.toLower = c ∧ c.toUpper = c := by
  rw [Char.isAlpha, Bool.or_eq_true, not_or] at hletter
  exact ⟨Char.toLower_eq_of_not_isUpper hletter.1, Char.toUpper_eq_of_not_isLower hletter.2⟩

theorem toLower_eq_underscore_iff {c : Char} : c.toLower = '_' ↔ c = '_' := by
  constructor
  · intro hlower
    have hletter : ¬ c.isAlpha := by
      rw [← Char.isAlpha_toLower_eq_isAlpha, hlower]
      decide
    rwa [(cases_eq_of_not_isAlpha hletter).1] at hlower
  · intro hmark
    rw [hmark]
    rfl

theorem toUpper_eq_underscore_iff {c : Char} : c.toUpper = '_' ↔ c = '_' := by
  constructor
  · intro hupper
    rw [← toLower_eq_underscore_iff, ← Char.toLower_toUpper_eq_toLower, hupper]
    rfl
  · intro hmark
    rw [hmark]
    rfl

/-! ### Parts -/

theorem splitOn_map_toLower (chars : List Char) :
    (chars.map Char.toLower).splitOn '_' = (chars.splitOn '_').map (List.map Char.toLower) := by
  induction chars with
  | nil => rfl
  | cons c rest ih =>
    rw [List.map_cons, List.splitOn_cons_eq_if_modifyHead, List.splitOn_cons_eq_if_modifyHead, ih]
    by_cases hmark : c = '_'
    · subst hmark
      rfl
    · have hlower : c.toLower ≠ '_' := mt toLower_eq_underscore_iff.mp hmark
      rw [if_neg (by simpa using hlower), if_neg (by simpa using hmark)]
      cases rest.splitOn '_' with
      | nil => rfl
      | cons part parts => rfl

theorem underscore_notMem_of_mem_splitOn {chars part : List Char}
    (hpart : part ∈ chars.splitOn '_') : '_' ∉ part := by
  induction chars generalizing part with
  | nil => simp_all
  | cons c rest ih =>
    rw [List.splitOn_cons_eq_if_modifyHead] at hpart
    by_cases hmark : c = '_'
    · rw [if_pos (by simpa using hmark), List.mem_cons] at hpart
      rcases hpart with rfl | hpart
      · exact List.not_mem_nil
      · exact ih hpart
    · rw [if_neg (by simpa using hmark)] at hpart
      cases hsplit : rest.splitOn '_' with
      | nil => exact absurd hsplit (List.splitOn_ne_nil _ _)
      | cons first others =>
        rw [hsplit] at hpart ih
        rcases List.mem_cons.mp hpart with rfl | hpart
        · rw [List.mem_cons, not_or]
          exact ⟨Ne.symm hmark, ih List.mem_cons_self⟩
        · exact ih (List.mem_cons_of_mem _ hpart)

theorem nameParts_map_toLower (chars : List Char) :
    nameParts (chars.map Char.toLower) = (nameParts chars).map (List.map Char.toLower) := by
  rw [nameParts, splitOn_map_toLower, nameParts, List.filter_map]
  congr 1
  apply List.filter_congr
  intro part _
  simp

theorem mem_nameParts {chars part : List Char} (hpart : part ∈ nameParts chars) :
    part ≠ [] ∧ '_' ∉ part := by
  obtain ⟨hsplit, hnil⟩ := List.mem_filter.mp hpart
  exact ⟨of_decide_eq_true hnil, underscore_notMem_of_mem_splitOn hsplit⟩

/-! ### Spelling a variant out -/

/-- A capital letter with the underscore in front of the part that it begins. -/
def spellOut (c : Char) : List Char :=
  if c.isUpper then ['_', c.toLower] else [c]

/-- A variant spelled out, without an underscore in front of the first part. -/
def ofVariant : List Char → List Char
  | [] => []
  | first :: rest => first.toLower :: rest.flatMap spellOut

theorem flatMap_spellOut_map_toLower (chars : List Char) :
    (chars.map Char.toLower).flatMap spellOut = chars.map Char.toLower := by
  rw [List.flatMap_map, List.map_eq_flatMap]
  apply List.flatMap_congr
  intro c _
  rw [spellOut, Char.isUpper_toLower_eq_false, if_neg Bool.false_ne_true]

theorem flatMap_spellOut_capitalize {part : List Char} (hnil : part ≠ []) :
    (capitalize part).flatMap spellOut = markPart (part.map Char.toLower) := by
  cases part with
  | nil => contradiction
  | cons first rest =>
    rw [capitalize, List.flatMap_cons, flatMap_spellOut_map_toLower, List.map_cons, markPart,
      spellOut, Char.isUpper_toUpper_eq_isAlpha, Char.isAlpha_toLower_eq_isAlpha,
      Char.toLower_toUpper_eq_toLower]
    by_cases hletter : first.isAlpha
    · rw [if_pos hletter, if_pos hletter]
      rfl
    · obtain ⟨hlower, hupper⟩ := cases_eq_of_not_isAlpha hletter
      rw [if_neg hletter, if_neg hletter, hlower, hupper]
      rfl

/-- The canonical name is the variant spelled out. -/
theorem toList_canonicalName (name : String) : (canonicalName name).toList =
    ofVariant ((nameParts name.toList).flatMap capitalize) := by
  rw [canonicalName, nameParts_map_toLower]
  have hparts : ∀ part ∈ nameParts name.toList, part ≠ [] := fun part hpart =>
    (mem_nameParts hpart).1
  cases hname : nameParts name.toList with
  | nil => rfl
  | cons part parts =>
    rw [hname, List.forall_mem_cons] at hparts
    cases part with
    | nil => exact absurd rfl hparts.1
    | cons first rest =>
      have hbehind : (parts.map (List.map Char.toLower)).flatMap markPart =
          (parts.flatMap capitalize).flatMap spellOut := by
        rw [List.flatMap_map, List.flatMap_assoc]
        apply List.flatMap_congr
        intro other hother
        exact (flatMap_spellOut_capitalize (hparts.2 other hother)).symm
      simp only [List.map_cons, List.flatMap_cons, capitalize, List.cons_append, ofVariant,
        String.toList_ofList, List.flatMap_append, flatMap_spellOut_map_toLower, hbehind,
        Char.toLower_toUpper_eq_toLower]

/-! ### Nothing is lost -/

theorem underscore_notMem_capitalize {part : List Char} (hpart : '_' ∉ part) :
    '_' ∉ capitalize part := by
  cases part with
  | nil => exact List.not_mem_nil
  | cons first rest =>
    rw [List.mem_cons, not_or] at hpart
    rw [capitalize, List.mem_cons, not_or]
    refine ⟨fun heq => hpart.1 (toUpper_eq_underscore_iff.mp heq.symm).symm, ?_⟩
    intro hmem
    obtain ⟨c, hc, hlower⟩ := List.mem_map.mp hmem
    rw [toLower_eq_underscore_iff.mp hlower] at hc
    exact hpart.2 hc

/-- What stands in a variant: no underscore, and no small letter at the front. -/
structure IsCamel (chars : List Char) : Prop where
  underscore_notMem : '_' ∉ chars
  head_toUpper : ∀ first ∈ chars.head?, first.toUpper = first

theorem isCamel_flatMap_capitalize (name : List Char) :
    IsCamel ((nameParts name).flatMap capitalize) := by
  constructor
  · intro hmem
    obtain ⟨part, hpart, hmark⟩ := List.mem_flatMap.mp hmem
    exact underscore_notMem_capitalize (mem_nameParts hpart).2 hmark
  · intro first hfirst
    cases hparts : nameParts name with
    | nil =>
      rw [hparts] at hfirst
      contradiction
    | cons part parts =>
      cases part with
      | nil => exact absurd rfl (mem_nameParts (hparts ▸ List.mem_cons_self)).1
      | cons c rest =>
        rw [hparts] at hfirst
        obtain rfl : c.toUpper = first := Option.some.inj hfirst
        exact Char.toUpper_toUpper_eq_toUpper c

theorem spellOut_append_inj {c d : Char} {rest others : List Char} (hc : c ≠ '_') (hd : d ≠ '_')
    (heq : spellOut c ++ rest = spellOut d ++ others) : c = d ∧ rest = others := by
  have hcapital : ∀ {letter : Char}, letter.isUpper → letter.toLower.toUpper = letter := by
    intro letter hupper
    rw [Char.toUpper_toLower_eq_toUpper]
    exact Char.toUpper_eq_of_not_isLower (Char.not_isLower_of_isUpper hupper)
  unfold spellOut at heq
  by_cases hupper : c.isUpper
  · by_cases hupper' : d.isUpper
    · rw [if_pos hupper, if_pos hupper'] at heq
      obtain ⟨hlower, hrest⟩ := List.cons.inj (List.cons.inj heq).2
      rw [← hcapital hupper, hlower, hcapital hupper']
      exact ⟨rfl, hrest⟩
    · rw [if_pos hupper, if_neg hupper'] at heq
      exact absurd (List.cons.inj heq).1.symm hd
  · by_cases hupper' : d.isUpper
    · rw [if_neg hupper, if_pos hupper'] at heq
      exact absurd (List.cons.inj heq).1 hc
    · rw [if_neg hupper, if_neg hupper'] at heq
      exact List.cons.inj heq

theorem flatMap_spellOut_injective {first second : List Char} (hfirst : '_' ∉ first)
    (hsecond : '_' ∉ second) (heq : first.flatMap spellOut = second.flatMap spellOut) :
    first = second := by
  have htrace : ∀ c, spellOut c ≠ [] := by
    intro c
    unfold spellOut
    split <;> exact List.cons_ne_nil _ _
  induction first generalizing second with
  | nil =>
    cases second with
    | nil => rfl
    | cons d others => exact absurd (List.append_eq_nil_iff.mp heq.symm).1 (htrace d)
  | cons c rest ih =>
    cases second with
    | nil => exact absurd (List.append_eq_nil_iff.mp heq).1 (htrace c)
    | cons d others =>
      rw [List.mem_cons, not_or] at hfirst hsecond
      rw [List.flatMap_cons, List.flatMap_cons] at heq
      obtain ⟨hhead, htail⟩ := spellOut_append_inj (Ne.symm hfirst.1) (Ne.symm hsecond.1) heq
      rw [hhead, ih hfirst.2 hsecond.2 htail]

/-- A variant can be told from its spelling. -/
theorem IsCamel.eq_of_ofVariant_eq {first second : List Char} (hfirst : IsCamel first)
    (hsecond : IsCamel second) (heq : ofVariant first = ofVariant second) : first = second := by
  cases first with
  | nil =>
    cases second with
    | nil => rfl
    | cons d others => contradiction
  | cons c rest =>
    cases second with
    | nil => contradiction
    | cons d others =>
      obtain ⟨hhead, htail⟩ := List.cons.inj heq
      have hcapital : c.toUpper = d.toUpper := by
        rw [← Char.toUpper_toLower_eq_toUpper, hhead, Char.toUpper_toLower_eq_toUpper]
      rw [hfirst.head_toUpper c rfl, hsecond.head_toUpper d rfl] at hcapital
      rw [hcapital, flatMap_spellOut_injective
        (fun hmem => hfirst.underscore_notMem (List.mem_cons_of_mem _ hmem))
        (fun hmem => hsecond.underscore_notMem (List.mem_cons_of_mem _ hmem)) htail]

/-- Two names have one variant exactly when they have one canonical name. -/
theorem Command.variant_eq_iff {first second : Command} :
    first.variant = second.variant ↔ canonicalName first.name = canonicalName second.name := by
  rw [variant, variant, String.ofList_inj, ← String.toList_inj, toList_canonicalName,
    toList_canonicalName]
  constructor
  · exact congrArg ofVariant
  · exact (isCamel_flatMap_capitalize _).eq_of_ofVariant_eq (isCamel_flatMap_capitalize _)

/-- Underscores at the ends, repeated ones and one in front of a digit leave no trace. -/
example : canonicalName "_A_1b__C_" = "a1b_c" := by decide

end CommandWord
