import CommandWord.Proofs.CommandLine.Effects

/-!
What a run is asked for: a registry, a mask, a language. Each is told here by what stands in the
arguments and in the file they name, and a configuration that is loaded is one of the codec and
the source that were asked for.
-/

namespace CommandWord

namespace Arguments

/-- The registry that is asked for: the one that the named file describes. If no file is named, it
is a random one of the requested size, and otherwise the sample. -/
inductive AsksForRegistry [Readers] [Randomness] (arguments : Arguments) (directory : Directory)
    (entropy : Entropy) : RegistryFile → Prop where
  | ofFile (path text : String) (file : RegistryFile) (hpath : arguments.registry = some path)
      (hread : directory.readText path = .ok text)
      (hparse : Readers.parseRegistry text = .ok file) :
      AsksForRegistry arguments directory entropy file
  | ofRandom (count totalBits : Nat) (seed : UInt64) (hpath : arguments.registry = none)
      (hrandom : arguments.random = some count) (hpos : 0 < count)
      (hbits : arguments.bits = some totalBits ∨ arguments.bits = none ∧ totalBits = 24)
      (hseed : arguments.seed = some seed ∨ arguments.seed = none ∧ seed = entropy.seed) :
      AsksForRegistry arguments directory entropy
        ⟨totalBits, .perCommand, Sample.random seed totalBits count⟩
  | ofSample (hpath : arguments.registry = none) (hrandom : arguments.random = none) :
      AsksForRegistry arguments directory entropy ⟨24, .perCommand, Sample.commands⟩

/-- The mask that is asked for: the one that is given, or one that is drawn from the seed or, if
there is no seed either, by the system. -/
inductive AsksForMask (arguments : Arguments) (entropy : Entropy) : MaskSource → Prop where
  | given (mask : UInt64) (hmask : arguments.mask = some mask) :
      AsksForMask arguments entropy (.fixed mask)
  | seeded (seed : UInt64) (hmask : arguments.mask = none) (hseed : arguments.seed = some seed) :
      AsksForMask arguments entropy (.seed seed)
  | drawn (hmask : arguments.mask = none) (hseed : arguments.seed = none) :
      AsksForMask arguments entropy (.entropy entropy.mask)

inductive AsksForTarget (arguments : Arguments) : Target → Prop where
  | rust (htarget : arguments.target = .rust) : AsksForTarget arguments .rust
  | java (htarget : arguments.target = .java) :
      AsksForTarget arguments (.java arguments.javaPackage arguments.javaClass)

/-- The codec of the registry that is asked for, with the number of bits and the layout of the
arguments if they give one, and its source. -/
def Compiles [Readers] [Randomness] (arguments : Arguments) (directory : Directory)
    (entropy : Entropy) (codec : Codec) (source : String) : Prop :=
  ∃ file mask target, arguments.AsksForRegistry directory entropy file ∧
    arguments.AsksForMask entropy mask ∧ arguments.AsksForTarget target ∧
    Codec.build (arguments.bits.getD file.totalBits) file.commands
      (if arguments.uniformHeaders then .uniform else file.layout) mask = .ok codec ∧
    codec.emit target = .ok source

end Arguments

namespace Configuration

section

variable {start world : World} {arguments : Arguments} {entropy : Entropy}

theorem readRegistry_allOrNothing [Readers] (huntouched : start.Untouched world) (path : String) :
    Action.AllOrNothing (readRegistry World.system.readFile path) start world fun file later =>
      later = world ∧ ∃ text, world.directory.readText path = .ok text ∧
        Readers.parseRegistry text = .ok file := by
  unfold readRegistry
  have hread : Action.AllOrNothing (liftM (World.system.readFile path)) start world
      fun answer later => answer = world.directory.read path ∧ later = world := .lift ⟨rfl, rfl⟩
  refine hread.bind ?_
  intro answer later hanswer
  obtain ⟨rfl, rfl⟩ := hanswer
  cases hread : later.directory.read path with
  | error reason => exact .throw huntouched
  | ok bytes =>
    cases htext : String.fromUTF8? bytes with
    | none =>
      simp only [htext]
      exact .throw huntouched
    | some text =>
      simp only [htext]
      cases hparse : Readers.parseRegistry text with
      | error reason => exact .throw huntouched
      | ok file =>
        refine .pure ⟨rfl, text, ?_, hparse⟩
        simp only [Directory.readText, hread, htext]

variable [Readers] [Randomness]

theorem registryOf_allOrNothing (huntouched : start.Untouched world) :
    Action.AllOrNothing (registryOf World.system.readFile entropy arguments) start world
      fun registry later =>
        later = world ∧ arguments.AsksForRegistry world.directory entropy registry.2 := by
  unfold registryOf
  split
  next _ path hpath =>
    refine .bind (readRegistry_allOrNothing huntouched path) ?_
    intro file later hfile
    obtain ⟨rfl, text, hread, hparse⟩ := hfile
    exact .pure ⟨rfl, .ofFile path text file hpath hread hparse⟩
  next count hpath hrandom =>
    split
    next => exact .throw huntouched
    next hcount =>
      refine .pure ⟨rfl, .ofRandom count _ _ hpath hrandom (Nat.pos_of_ne_zero hcount) ?_ ?_⟩
      · cases arguments.bits with
        | some bits => exact Or.inl rfl
        | none => exact Or.inr ⟨rfl, rfl⟩
      · cases arguments.seed with
        | some seed => exact Or.inl rfl
        | none => exact Or.inr ⟨rfl, rfl⟩
  next hpath hrandom => exact .pure ⟨rfl, .ofSample hpath hrandom⟩

omit [Readers] [Randomness] in
theorem asksForMask_maskOf : arguments.AsksForMask entropy (maskOf entropy arguments) := by
  unfold maskOf
  split
  next _ mask hmask => exact .given mask hmask
  next seed hmask hseed => exact .seeded seed hmask hseed
  next hmask hseed => exact .drawn hmask hseed

omit [Readers] [Randomness] in
theorem asksForTarget_targetOf : arguments.AsksForTarget (targetOf arguments) := by
  unfold targetOf
  split
  next htarget => exact .rust htarget
  next htarget => exact .java htarget

/-- A configuration whose codec and source are those that are asked for, and go where the
arguments say. -/
structure Serves (configuration : Configuration) (arguments : Arguments) (directory : Directory)
    (entropy : Entropy) : Prop where
  compiles : ∀ codec source, configuration.build = .ok codec →
    codec.emit configuration.target = .ok source →
    arguments.Compiles directory entropy codec source
  out : configuration.out = arguments.out
  printReport : configuration.printReport = !arguments.noReport

theorem load_allOrNothing (huntouched : start.Untouched world) :
    Action.AllOrNothing (load World.system.readFile entropy arguments) start world
      fun configuration later =>
        later = world ∧ configuration.Serves arguments world.directory entropy := by
  unfold load
  refine .bind (registryOf_allOrNothing huntouched) ?_
  intro registry later hregistry
  obtain ⟨rfl, hasked⟩ := hregistry
  refine .pure ⟨rfl, ?_, rfl, rfl⟩
  intro codec source hbuild hemit
  exact ⟨registry.2, _, _, hasked, asksForMask_maskOf, asksForTarget_targetOf, hbuild, hemit⟩

end

end Configuration

end CommandWord
