import CommandWord.Proofs.Codec.Entries
import CommandWord.Proofs.Registry.Validation
import CommandWord.Random.Generator

/-!
When a compilation succeeds. The inputs pass four stages: the registry must be valid, every
payload must fit the word, the codes must suffice, and a given mask must fit the word. A failed
compilation names the first stage that the inputs do not pass; the exhaustive check of the
finished header table is no such stage, because it never fails.
-/

namespace CommandWord

/-- The stages of a compilation, in the order in which they run. -/
inductive Stage where
  | registry
  | budget
  | codeSpace
  | mask
  deriving DecidableEq

namespace Stage

/-- The stages in the order in which they run. -/
def order : List Stage := [registry, budget, codeSpace, mask]

theorem mem_order (stage : Stage) : stage ∈ order := by
  cases stage <;> decide

/-- The number of commands whose header is as short as the largest payload makes it. -/
def shortestCount (totalBits : Nat) (commands : List Command) (layout : Layout) : Nat :=
  commands.countP fun command =>
    layout.headerLength totalBits commands command = totalBits - largestPayload commands

/-- What a stage asks of the inputs. All sums are those of whole numbers. -/
def Passes (totalBits : Nat) (commands : List Command) (layout : Layout) (source : MaskSource) :
    Stage → Prop
  | registry => ValidRegistry totalBits commands
  | budget => ∀ command ∈ commands, command.fields.sum ≤ totalBits
  | codeSpace =>
      commands.length ≤ 2 ^ (totalBits - largestPayload commands) ∧
        shortestCount totalBits commands layout < 2 ^ (totalBits - largestPayload commands)
  | mask => ∀ mask, source = .fixed mask → mask.toNat < 2 ^ totalBits

instance (totalBits : Nat) (commands : List Command) (layout : Layout) (source : MaskSource)
    (stage : Stage) : Decidable (stage.Passes totalBits commands layout source) :=
  match stage with
  | registry => inferInstanceAs (Decidable (ValidRegistry totalBits commands))
  | budget => inferInstanceAs (Decidable (∀ command ∈ commands, command.fields.sum ≤ totalBits))
  | codeSpace => inferInstanceAs (Decidable (_ ∧ _))
  | mask =>
    match source with
    | .entropy _ | .seed _ => isTrue (by simp [Passes])
    | .fixed given => decidable_of_iff (given.toNat < 2 ^ totalBits) (by simp [Passes])

/-- The stage is the first that the inputs do not pass. -/
abbrev FirstFailing (totalBits : Nat) (commands : List Command) (layout : Layout)
    (source : MaskSource) (stage : Stage) : Prop :=
  FirstFailure (fun stage : Stage => stage.Passes totalBits commands layout source) order stage

theorem passes_or_firstFailing (totalBits : Nat) (commands : List Command) (layout : Layout)
    (source : MaskSource) :
    (∀ stage : Stage, stage.Passes totalBits commands layout source) ∨
      ∃ stage : Stage, stage.FirstFailing totalBits commands layout source := by
  rcases passes_or_firstFailure (fun stage : Stage => stage.Passes totalBits commands layout source)
    order with hall | hfirst
  · exact Or.inl fun stage => hall stage stage.mem_order
  · exact Or.inr hfirst

end Stage

/-- The stage whose failure an error reports. -/
def ConfigurationError.stage? : ConfigurationError → Option Stage
  | emptyRegistry | invalidTotalBits _ | invalidName _ | duplicateCommand _ => some .registry
  | payloadExceedsBudget _ _ _ => some .budget
  | codeSpaceExhausted _ _ => some .codeSpace
  | maskOutOfRange _ _ => some .mask
  | headerCollision _ _ | unsupportedTarget _ _ => none

theorem ConfigurationError.stage?_eq_codeSpace_iff {cause : ConfigurationError} :
    cause.stage? = some .codeSpace ↔
      ∃ command length, cause = .codeSpaceExhausted command length := by
  cases cause <;> simp [stage?]

namespace Registry

theorem stage_of_nameFault {seen : List String} {commands : List Command}
    {cause : ConfigurationError} (hfault : nameFault seen commands = some cause) :
    cause.stage? = some .registry := by
  induction commands generalizing seen with
  | nil => contradiction
  | cons command rest ih =>
    rw [nameFault] at hfault
    split at hfault
    · rw [← Option.some.inj hfault]
      rfl
    · split at hfault
      · rw [← Option.some.inj hfault]
        rfl
      · exact ih hfault

theorem stage_of_fault {totalBits : Nat} {commands : List Command} {cause : ConfigurationError}
    (hfault : fault totalBits commands = some cause) : cause.stage? = some .registry := by
  rw [fault] at hfault
  split at hfault
  · rw [← Option.some.inj hfault]
    rfl
  · split at hfault
    · rw [← Option.some.inj hfault]
      rfl
    · exact stage_of_nameFault hfault

theorem shortestLength_lengths (registry : Registry) (layout : Layout) :
    shortestLength (registry.lengths layout) =
      registry.totalBits - largestPayload registry.commands := by
  rw [shortestLength, lengths, layout.min?_map_headerLength _ registry.valid.ne_nil]
  rfl

/-- The codes suffice exactly when the counts say so. -/
theorem blockedRow?_lengths_eq_none_iff (registry : Registry) (layout : Layout)
    (source : MaskSource) :
    registry.blockedRow? (registry.lengths layout) = none ↔
      Stage.codeSpace.Passes registry.totalBits registry.commands layout source := by
  rw [registry.blockedRow?_eq_none_iff (registry.length_lengths layout),
    registry.shortestLength_lengths layout, lengths, List.countP_map]
  rfl

variable (registry : Registry) {layout : Layout} {source : MaskSource}

theorem exists_compileHeaders
    (hbudget : Stage.budget.Passes registry.totalBits registry.commands layout source)
    (hspace : Stage.codeSpace.Passes registry.totalBits registry.commands layout source) :
    ∃ headers, registry.compileHeaders layout = .ok headers := by
  have hnone := (registry.blockedRow?_lengths_eq_none_iff layout source).mpr hspace
  refine ⟨registry.table (registry.lengths layout), ?_⟩
  rw [registry.compileHeaders_of_sum_le layout hbudget, hnone]

theorem compileHeaders_of_not_codeSpace
    (hbudget : Stage.budget.Passes registry.totalBits registry.commands layout source)
    (hspace : ¬ Stage.codeSpace.Passes registry.totalBits registry.commands layout source) :
    ∃ cause, registry.compileHeaders layout = .error cause ∧
      cause.stage? = some .codeSpace := by
  rw [← registry.blockedRow?_lengths_eq_none_iff layout source] at hspace
  obtain ⟨row, hrow⟩ := Option.ne_none_iff_exists'.mp hspace
  refine ⟨.codeSpaceExhausted row.1.command.name row.1.length, ?_, rfl⟩
  rw [registry.compileHeaders_of_sum_le layout hbudget, hrow]

theorem compileHeaders_of_not_budget
    (hbudget : ¬ Stage.budget.Passes registry.totalBits registry.commands layout source) :
    ∃ cause, registry.compileHeaders layout = .error cause ∧ cause.stage? = some .budget := by
  simp only [Stage.Passes, not_forall, Nat.not_le] at hbudget
  obtain ⟨command, hmem, hover⟩ := hbudget
  obtain ⟨first, herror⟩ := registry.compileHeaders_of_lt_sum layout hmem hover
  exact ⟨_, herror, rfl⟩

end Registry

namespace MaskSource

variable [Randomness] {totalBits : Nat} {commands : List Command} {layout : Layout}
  {source : MaskSource}

theorem exists_draw (hmask : Stage.mask.Passes totalBits commands layout source) :
    ∃ mask, source.draw totalBits = .ok mask := by
  cases source with
  | entropy word => exact ⟨_, rfl⟩
  | seed start => exact ⟨_, rfl⟩
  | fixed mask =>
    refine ⟨mask, ?_⟩
    rw [draw, if_neg (not_not.mpr (fits_iff_lt.mpr (hmask mask rfl)))]

theorem draw_of_not_mask (hmask : ¬ Stage.mask.Passes totalBits commands layout source) :
    ∃ cause, source.draw totalBits = .error cause ∧ cause.stage? = some .mask := by
  simp only [Stage.Passes, not_forall] at hmask
  obtain ⟨mask, rfl, hover⟩ := hmask
  have hfits : ¬ Fits mask totalBits := by rwa [fits_iff_lt]
  refine ⟨.maskOutOfRange mask totalBits, ?_, rfl⟩
  rw [draw, if_pos hfits]

end MaskSource

namespace Codec

section

variable [Randomness] {totalBits : Nat} {commands : List Command} {layout : Layout}
  {source : MaskSource}

/-- A codec keeps what it was built from. -/
theorem inputs_of_build {codec : Codec}
    (hbuild : build totalBits commands layout source = .ok codec) :
    codec.registry.totalBits = totalBits ∧ codec.registry.commands = commands ∧
      codec.layout = layout ∧ source.draw totalBits = .ok codec.mask := by
  by_cases hvalid : ValidRegistry totalBits commands
  · unfold build at hbuild
    rw [Registry.ofCommands_of_valid hvalid] at hbuild
    dsimp only at hbuild
    split at hbuild
    · contradiction
    · split at hbuild
      · contradiction
      next hmask =>
        rw [← Except.ok.inj hbuild]
        exact ⟨rfl, rfl, rfl, hmask⟩
  · obtain ⟨cause, -, herror⟩ := Registry.ofCommands_of_not_valid hvalid
    unfold build at hbuild
    rw [herror] at hbuild
    contradiction

theorem build_of_not_valid (hvalid : ¬ ValidRegistry totalBits commands) :
    ∃ cause, build totalBits commands layout source = .error cause ∧
      cause.stage? = some .registry := by
  obtain ⟨cause, hfault, herror⟩ := Registry.ofCommands_of_not_valid hvalid
  refine ⟨cause, ?_, Registry.stage_of_fault hfault⟩
  unfold build
  rw [herror]

theorem build_of_headers_error {registry : Registry} {cause : ConfigurationError}
    (hheaders : registry.compileHeaders layout = .error cause) :
    build registry.totalBits registry.commands layout source = .error cause := by
  unfold build
  rw [Registry.ofCommands_of_valid registry.valid]
  dsimp only
  split
  next other hother =>
    rw [hheaders] at hother
    rw [Except.error.inj hother]
  next headers hother =>
    rw [hheaders] at hother
    contradiction

theorem build_of_draw_error {registry : Registry} {headers : List Header}
    {cause : ConfigurationError} (hheaders : registry.compileHeaders layout = .ok headers)
    (hdraw : source.draw registry.totalBits = .error cause) :
    build registry.totalBits registry.commands layout source = .error cause := by
  unfold build
  rw [Registry.ofCommands_of_valid registry.valid]
  dsimp only
  split
  next other hother =>
    rw [hheaders] at hother
    contradiction
  next =>
    split
    next other hother =>
      rw [hdraw] at hother
      rw [Except.error.inj hother]
    next mask hother =>
      rw [hdraw] at hother
      contradiction

theorem build_of_draw {registry : Registry} {headers : List Header} {mask : UInt64}
    (hheaders : registry.compileHeaders layout = .ok headers)
    (hdraw : source.draw registry.totalBits = .ok mask) :
    build registry.totalBits registry.commands layout source =
      .ok ⟨registry, layout, headers, mask, hheaders, MaskSource.fits_of_draw hdraw⟩ := by
  unfold build
  rw [Registry.ofCommands_of_valid registry.valid]
  dsimp only
  split
  next cause hother =>
    rw [hheaders] at hother
    contradiction
  next others hothers =>
    obtain rfl : headers = others := Except.ok.inj (hheaders.symm.trans hothers)
    split
    next cause hother =>
      rw [hdraw] at hother
      contradiction
    next other hother =>
      obtain rfl : mask = other := Except.ok.inj (hdraw.symm.trans hother)
      rfl

theorem exists_build (hpasses : ∀ stage : Stage, stage.Passes totalBits commands layout source) :
    ∃ codec, build totalBits commands layout source = .ok codec := by
  have hvalid : ValidRegistry totalBits commands := hpasses .registry
  obtain ⟨headers, hheaders⟩ := Registry.exists_compileHeaders ⟨totalBits, commands, hvalid⟩
    (hpasses .budget) (hpasses .codeSpace)
  obtain ⟨mask, hdraw⟩ := MaskSource.exists_draw (hpasses .mask)
  exact ⟨_, build_of_draw hheaders hdraw⟩

/-- A build reports the first stage that its inputs do not pass. -/
theorem build_of_firstFailing {stage : Stage}
    (hfirst : stage.FirstFailing totalBits commands layout source) :
    ∃ cause, build totalBits commands layout source = .error cause ∧
      cause.stage? = some stage := by
  obtain ⟨hfails, hearlier⟩ := hfirst
  cases stage with
  | registry => exact build_of_not_valid hfails
  | budget =>
    have hvalid : ValidRegistry totalBits commands := hearlier .registry (by decide)
    obtain ⟨cause, hheaders, hstage⟩ :=
      Registry.compileHeaders_of_not_budget ⟨totalBits, commands, hvalid⟩ hfails
    exact ⟨cause, build_of_headers_error hheaders, hstage⟩
  | codeSpace =>
    have hvalid : ValidRegistry totalBits commands := hearlier .registry (by decide)
    obtain ⟨cause, hheaders, hstage⟩ := Registry.compileHeaders_of_not_codeSpace
      ⟨totalBits, commands, hvalid⟩ (hearlier .budget (by decide)) hfails
    exact ⟨cause, build_of_headers_error hheaders, hstage⟩
  | mask =>
    have hvalid : ValidRegistry totalBits commands := hearlier .registry (by decide)
    obtain ⟨headers, hheaders⟩ := Registry.exists_compileHeaders
      ⟨totalBits, commands, hvalid⟩ (hearlier .budget (by decide)) (hearlier .codeSpace (by decide))
    obtain ⟨cause, hdraw, hstage⟩ := MaskSource.draw_of_not_mask hfails
    exact ⟨cause, build_of_draw_error hheaders hdraw, hstage⟩

/-- Every codec is the outcome of a build: the one from its own parts. -/
theorem build_parts (codec : Codec) :
    build codec.totalBits codec.registry.commands codec.layout (.fixed codec.mask) =
      .ok codec := by
  have hdraw : MaskSource.draw (.fixed codec.mask) codec.registry.totalBits = .ok codec.mask := by
    rw [MaskSource.draw, if_neg (not_not.mpr codec.mask_fits)]
  exact build_of_draw codec.compiled hdraw

/-- A build succeeds exactly when the inputs pass every stage, and otherwise reports the first
that they do not pass. No build reports a collision of headers. -/
theorem build_succeeds_iff_passes (totalBits : Nat) (commands : List Command) (layout : Layout)
    (source : MaskSource) :
    ((∃ codec, build totalBits commands layout source = .ok codec) ↔
      ∀ stage : Stage, stage.Passes totalBits commands layout source) ∧
    (∀ cause, build totalBits commands layout source = .error cause →
      ∃ stage, cause.stage? = some stage ∧
        stage.FirstFailing totalBits commands layout source) ∧
    ∀ first second,
      build totalBits commands layout source ≠ .error (.headerCollision first second) := by
  rcases Stage.passes_or_firstFailing totalBits commands layout source with
    hpasses | ⟨stage, hfirst⟩
  · obtain ⟨codec, hbuild⟩ := exists_build hpasses
    rw [hbuild]
    exact ⟨⟨fun _ => hpasses, fun _ => ⟨codec, rfl⟩⟩, nofun, nofun⟩
  · obtain ⟨cause, hbuild, hstage⟩ := build_of_firstFailing hfirst
    rw [hbuild]
    refine ⟨⟨nofun, fun hpasses => absurd (hpasses stage) hfirst.fails⟩, ?_, ?_⟩
    · rintro other heq
      rw [← Except.error.inj heq]
      exact ⟨stage, hstage, hfirst⟩
    · rintro first second heq
      rw [Except.error.inj heq] at hstage
      contradiction

end

/-- What a codec is made of has passed every stage. -/
theorem passes (codec : Codec) (stage : Stage) :
    stage.Passes codec.totalBits codec.registry.commands codec.layout (.fixed codec.mask) := by
  rcases Stage.passes_or_firstFailing codec.totalBits codec.registry.commands codec.layout
    (.fixed codec.mask) with hpasses | ⟨failing, hfirst⟩
  · exact hpasses stage
  · obtain ⟨cause, herror, -⟩ := build_of_firstFailing hfirst
    rw [build_parts] at herror
    contradiction

/-- A one-bit header leaves room for two commands. The missing code is reported, not the mask
that would not fit the word either. -/
theorem build_third_beside_one_bit_header :
    ∃ cause, build 3 [⟨"S", [2]⟩, ⟨"L1", []⟩, ⟨"L2", []⟩] .perCommand (.fixed 9) = .error cause ∧
      cause.stage? = some .codeSpace := by
  obtain ⟨hok, herror, -⟩ :=
    build_succeeds_iff_passes 3 [⟨"S", [2]⟩, ⟨"L1", []⟩, ⟨"L2", []⟩] .perCommand (.fixed 9)
  cases hbuild : build 3 [⟨"S", [2]⟩, ⟨"L1", []⟩, ⟨"L2", []⟩] .perCommand (.fixed 9) with
  | ok codec => exact absurd (hok.mp ⟨codec, hbuild⟩ .codeSpace) (by decide)
  | error cause =>
    obtain ⟨stage, hstage, hfails, hearlier⟩ := herror cause hbuild
    refine ⟨cause, rfl, ?_⟩
    cases stage with
    | registry => exact absurd (by decide) hfails
    | budget => exact absurd (by decide) hfails
    | codeSpace => exact hstage
    | mask => exact absurd (hearlier .codeSpace (by decide)) (by decide)

end Codec

end CommandWord
