import CommandWord.CommandLine.Run
import CommandWord.Proofs.Codec.Compilation
import CommandWord.Proofs.CommandLine.Request
import CommandWord.Proofs.Text.Lines

/-!
A run is all or nothing. Whatever fails, from the arguments to the last refusal, fails before
anything is put out. A run that compiles puts out the source of the compiled codec at one place:
on its output or in the file that was named for it, and then the output is left to the report.
A device is not a file: it can be named like one, and keeps nothing.
-/

namespace CommandWord

namespace Configuration

section

variable [Randomness] {start world : World} {configuration : Configuration} {codec : Codec}
  {source : String}

theorem compile_eq_ok (hcompile : configuration.compile = .ok (codec, source)) :
    configuration.build = .ok codec ∧ codec.emit configuration.target = .ok source := by
  unfold compile at hcompile
  split at hcompile
  · contradiction
  next built hbuild =>
    split at hcompile
    · contradiction
    next emitted hemit =>
      obtain ⟨rfl, rfl⟩ := Prod.mk.inj (Except.ok.inj hcompile)
      exact ⟨hbuild, hemit⟩

omit [Randomness] in
theorem announce_allOrNothing (huntouched : start.Untouched world) :
    Action.AllOrNothing (configuration.announce World.system) start world fun _ later =>
      start.Untouched later := by
  unfold announce
  split
  · exact .lift (huntouched.printError _)
  · exact .pure huntouched

theorem compile_allOrNothing (huntouched : start.Untouched world) :
    Action.AllOrNothing (MonadExcept.ofExcept configuration.compile) start world
      fun compiled later => start.Untouched later ∧ configuration.build = .ok compiled.1 ∧
        compiled.1.emit configuration.target = .ok compiled.2 := by
  cases hcompile : configuration.compile with
  | error failure => exact .throw huntouched
  | ok compiled => exact .pure ⟨huntouched, compile_eq_ok hcompile⟩

omit [Randomness] in
theorem deliver_allOrNothing (huntouched : start.Untouched world) :
    Action.AllOrNothing (configuration.deliver World.system source) start world fun _ later =>
      start.Received configuration.out source "" later := by
  unfold deliver
  cases hout : configuration.out with
  | none =>
    refine .lift (.output rfl ?_ huntouched.directory)
    rw [← huntouched.output]
    rfl
  | some path =>
    cases hrefusal : world.directory.refusal path with
    | some reason =>
      have hwrite : Action.AllOrNothing (liftM (World.system.writeFile path source)) start world
          fun answer later => answer = .error reason ∧ later = world := by
        refine .lift ?_
        simp only [World.system, hrefusal, and_self]
      refine hwrite.bind ?_
      intro answer later hanswer
      obtain ⟨rfl, rfl⟩ := hanswer
      exact .throw huntouched
    | none =>
      have hwrite : Action.AllOrNothing (liftM (World.system.writeFile path source)) start world
          fun answer later => answer = .ok () ∧ later = world.put path source := by
        refine .lift ?_
        simp only [World.system, hrefusal, and_self]
      refine hwrite.bind ?_
      intro answer later hanswer
      obtain ⟨rfl, rfl⟩ := hanswer
      exact .pure (World.put_received huntouched hrefusal)

omit [Randomness] in
theorem report_allOrNothing
    (hreceived : start.Received configuration.out source "" world) :
    Action.AllOrNothing (configuration.report World.system codec) start world fun _ later =>
      start.Received configuration.out source
        (if configuration.printReport then (Report.ofCodec codec).summary else "") later := by
  unfold report
  split
  next =>
    cases hout : configuration.out with
    | some path =>
      rw [hout] at hreceived
      exact .lift (hreceived.print _)
    | none =>
      rw [hout] at hreceived
      exact .lift (hreceived.printError _)
  next => exact .pure hreceived

theorem perform_allOrNothing (huntouched : start.Untouched world) :
    Action.AllOrNothing (configuration.perform World.system) start world fun _ later =>
      ∃ codec source, configuration.build = .ok codec ∧
        codec.emit configuration.target = .ok source ∧
        start.Received configuration.out source
          (if configuration.printReport then (Report.ofCodec codec).summary else "") later := by
  unfold perform
  refine .bind (announce_allOrNothing huntouched) ?_
  intro _ announced hannounced
  refine .bind (compile_allOrNothing hannounced) ?_
  intro compiled compiledAt hcompiled
  obtain ⟨codec, source⟩ := compiled
  obtain ⟨hcompiled, hbuild, hemit⟩ := hcompiled
  refine .bind (deliver_allOrNothing hcompiled) ?_
  intro _ delivered hdelivered
  exact (report_allOrNothing hdelivered).imp fun _ later hlater =>
    ⟨codec, source, hbuild, hemit, hlater⟩

end

end Configuration

namespace World

variable [Readers] [Randomness] (world : World) (entropy : Entropy) {line : List String}
  {arguments : Arguments}

/-- What has no arguments says so and ends. -/
theorem run_of_stop {stop : Stop} (hparse : Readers.parseArguments line = .error stop) :
    ((world.run entropy line).1 = 0 → stop = .help ∨ stop = .version) ∧
      ((world.run entropy line).1 ≠ 0 → world.Untouched (world.run entropy line).2) := by
  simp only [run, program, hparse]
  cases stop with
  | help => exact ⟨fun _ => Or.inl rfl, fun hfailed => absurd rfl hfailed⟩
  | version => exact ⟨fun _ => Or.inr rfl, fun hfailed => absurd rfl hfailed⟩
  | usage cause => exact ⟨nofun, fun _ => (Untouched.refl world).printError _⟩

theorem load_perform_allOrNothing (arguments : Arguments) :
    Action.AllOrNothing
      (Configuration.load system.readFile entropy arguments >>=
        fun configuration => configuration.perform system) world world fun _ later =>
      ∃ codec source, arguments.Compiles world.directory entropy codec source ∧
        world.Received arguments.out source
          (if arguments.noReport then "" else (Report.ofCodec codec).summary) later := by
  refine .bind (Configuration.load_allOrNothing (Untouched.refl world)) ?_
  intro configuration loaded hloaded
  obtain ⟨rfl, hserves⟩ := hloaded
  refine (Configuration.perform_allOrNothing (Untouched.refl loaded)).imp ?_
  intro _ later hlater
  obtain ⟨codec, source, hbuild, hemit, hreceived⟩ := hlater
  refine ⟨codec, source, hserves.compiles codec source hbuild hemit, ?_⟩
  rw [hserves.out, hserves.printReport] at hreceived
  cases hreport : arguments.noReport <;> simpa [hreport] using hreceived

/-- What is asked for is compiled and received, or the run fails with everything as it was. -/
theorem run_of_arguments (hparse : Readers.parseArguments line = .ok arguments) :
    (world.run entropy line).1 = 0 ∧
        (∃ codec source, arguments.Compiles world.directory entropy codec source ∧
          world.Received arguments.out source
            (if arguments.noReport then "" else (Report.ofCodec codec).summary)
            (world.run entropy line).2) ∨
      (world.run entropy line).1 ≠ 0 ∧ world.Untouched (world.run entropy line).2 := by
  have hperform := load_perform_allOrNothing world entropy arguments
  unfold Action.AllOrNothing at hperform
  simp only [run, program, hparse, StateT.run_bind]
  split at hperform
  next value later hending =>
    simp only [hending]
    exact Or.inl ⟨rfl, hperform⟩
  next failure later hending =>
    simp only [hending]
    exact Or.inr ⟨nofun, hperform.printError _⟩

end World

/-- A run that ends with a failure leaves its output and every file as they were. Any other run
that was not asked for help or the version has compiled the codec that was asked for, and its
output has received the source, or the named file holds it and the output has received the
summary. A named device takes the source without a change. -/
theorem run_all_or_nothing [Readers] [Randomness] (world : World) (entropy : Entropy)
    (line : List String) :
    ((world.run entropy line).1 ≠ 0 → world.Untouched (world.run entropy line).2) ∧
    ((world.run entropy line).1 = 0 → Readers.parseArguments line ≠ .error .help →
      Readers.parseArguments line ≠ .error .version →
      ∃ arguments codec source, Readers.parseArguments line = .ok arguments ∧
        arguments.Compiles world.directory entropy codec source ∧
        world.Received arguments.out source
          (if arguments.noReport then "" else (Report.ofCodec codec).summary)
          (world.run entropy line).2) := by
  cases hparse : Readers.parseArguments line with
  | error stop =>
    obtain ⟨hdone, hfailed⟩ := World.run_of_stop world entropy hparse
    refine ⟨hfailed, ?_⟩
    intro hzero hhelp hversion
    rcases hdone hzero with rfl | rfl
    · exact absurd rfl hhelp
    · exact absurd rfl hversion
  | ok arguments =>
    rcases World.run_of_arguments world entropy hparse with
      ⟨hzero, codec, source, hcompiles, hreceived⟩ | ⟨hnonzero, huntouched⟩
    · refine ⟨fun hfailed => absurd hzero hfailed, ?_⟩
      exact fun _ _ _ => ⟨arguments, codec, source, rfl, hcompiles, hreceived⟩
    · exact ⟨fun _ => huntouched, fun hzero => absurd hzero hnonzero⟩

/-- The sample with one mask, to be written to a path. -/
def Arguments.writingSample (path : String) : Arguments :=
  { Arguments.default with mask := some 90, noReport := true, out := some path }

theorem Arguments.compiles_writingSample [Readers] [Randomness] {directory : Directory}
    {entropy : Entropy} {codec : Codec} {source path : String}
    (hcompiles : (writingSample path).Compiles directory entropy codec source) :
    Codec.build 24 Sample.commands .perCommand (.fixed 90) = .ok codec ∧
      codec.emit .rust = .ok source := by
  obtain ⟨file, mask, target, hregistry, hmask, htarget, hbuild, hemit⟩ := hcompiles
  cases hregistry with
  | ofFile path text file hpath => contradiction
  | ofRandom count totalBits seed hpath hrandom => contradiction
  | ofSample hpath hrandom =>
    cases hmask with
    | given mask hmask =>
      cases htarget with
      | rust htarget =>
        obtain rfl : 90 = mask := Option.some.inj hmask
        exact ⟨hbuild, hemit⟩
      | java htarget => contradiction
    | seeded seed hmask => contradiction
    | drawn hmask => contradiction

/-- Such a run goes well wherever its source is not refused. -/
theorem World.run_writingSample {world : World} {line : List String} {path : String}
    (hparse : Readers.parseArguments line = .ok (.writingSample path))
    (hrefusal : world.directory.refusal path = none) :
    (world.run ⟨0, 0⟩ line).1 = 0 := by
  obtain ⟨codec, hbuild⟩ : ∃ codec,
      Codec.build Sample.totalBits Sample.commands .perCommand (.fixed 90) = .ok codec :=
    Codec.exists_build (by rintro (_ | _ | _ | _) <;> decide +kernel)
  let configuration : Configuration := ⟨"built-in sample", Sample.totalBits, .perCommand,
    Sample.commands, .fixed 90, .rust, some path, false, false⟩
  have hload : (Configuration.load system.readFile ⟨0, 0⟩ (.writingSample path)).run.run world =
      (.ok configuration, world) := rfl
  have hcompile : configuration.compile = .ok (codec, RustText.source codec) := by
    simp only [Configuration.compile, Configuration.build, configuration, hbuild, Codec.emit]
  have hannounce : (configuration.announce system).run.run world = (.ok (), world) := rfl
  have hsource : (MonadExcept.ofExcept configuration.compile : Action _).run.run world =
      (.ok (codec, RustText.source codec), world) := by rw [hcompile]; rfl
  have hwrite : (liftM (system.writeFile path (RustText.source codec)) : Action _).run.run world =
      (.ok (.ok ()), world.put path (RustText.source codec)) := by
    change ((Except.ok _, _) : Except Failure _ × World) = _
    simp only [World.system, hrefusal]
  have hdeliver : (configuration.deliver system (RustText.source codec)).run.run world =
      (.ok (), world.put path (RustText.source codec)) := by
    rw [Configuration.deliver, Action.run_bind hwrite]
    rfl
  have hperform : (configuration.perform system).run.run world =
      (.ok (), world.put path (RustText.source codec)) := by
    rw [Configuration.perform, Action.run_bind hannounce, Action.run_bind hsource,
      Action.run_bind hdeliver]
    rfl
  simp only [run, program, hparse, StateT.run_bind, Action.run_bind hload, hperform]
  rfl

/-- The sample, written over an older file; and a word that is none of the languages. -/
theorem run_overwrites_named_file :
    let world : World := ⟨.ofFiles [("gen.rs", "old".toUTF8)], "", "", []⟩
    let outcome := world.run ⟨0, 0⟩ ["--mask=90", "--no-report", "--out=gen.rs"]
    (outcome.1 = 0 ∧ outcome.2.output = "" ∧
      ∃ codec source, Codec.build 24 Sample.commands .perCommand (.fixed 90) = .ok codec ∧
        codec.emit .rust = .ok source ∧
        outcome.2.directory.system.contents "gen.rs" = .ok source.toUTF8) ∧
    (world.run ⟨0, 0⟩ ["--target=c"]).1 = 2 ∧
      world.Untouched (world.run ⟨0, 0⟩ ["--target=c"]).2 := by
  intro world outcome
  have hparse : Readers.parseArguments ["--mask=90", "--no-report", "--out=gen.rs"] =
      .ok (.writingSample "gen.rs") := rfl
  have hrefusal : world.directory.refusal "gen.rs" = none := by decide +kernel
  have hdone : outcome.1 = 0 := World.run_writingSample hparse hrefusal
  have husage : (world.run ⟨0, 0⟩ ["--target=c"]).1 = 2 := by
    have hparse : Readers.parseArguments ["--target=c"] = .error (.usage .invalidValue) := rfl
    simp only [World.run, program, hparse]
    rfl
  refine ⟨?_, husage, (run_all_or_nothing world ⟨0, 0⟩ ["--target=c"]).1 (by omega)⟩
  obtain ⟨arguments, codec, source, hparsed, hcompiles, hreceived⟩ :=
    (run_all_or_nothing world ⟨0, 0⟩ ["--mask=90", "--no-report", "--out=gen.rs"]).2 hdone
      (by rw [hparse]; nofun) (by rw [hparse]; nofun)
  obtain rfl := Except.ok.inj (hparse.symm.trans hparsed)
  obtain ⟨hbuild, hemit⟩ := Arguments.compiles_writingSample hcompiles
  cases hreceived with
  | output hout => contradiction
  | file path hout hplace hholds hkept houtput =>
    obtain rfl : "gen.rs" = path := Option.some.inj hout
    exact ⟨hdone, houtput, codec, source, hbuild, hemit, hholds⟩
  | device path gives sink hout hplace hdirectory houtput =>
    obtain rfl : "gen.rs" = path := Option.some.inj hout
    have hbase : (Path.ofString "gen.rs").place.base = .working := by decide +kernel
    exact absurd hplace
      (FileList.system_ne_device [("gen.rs", "old".toUTF8)] hbase gives sink)

/-- A run can go well and leave its source nowhere: a device holds nothing of it. -/
theorem run_to_device_holds_nothing :
    let world : World := ⟨.ofFiles [], "", "", []⟩
    let line := ["--mask=90", "--no-report", "--out=/dev/null"]
    (world.run ⟨0, 0⟩ line).1 = 0 ∧
      ∃ arguments, Readers.parseArguments line = .ok arguments ∧
        arguments.out = some "/dev/null" ∧
        ∀ codec source, arguments.Compiles world.directory ⟨0, 0⟩ codec source →
          (world.run ⟨0, 0⟩ line).2.directory.system.contents "/dev/null" ≠
            .ok source.toUTF8 := by
  intro world line
  have hparse : Readers.parseArguments line = .ok (.writingSample "/dev/null") := rfl
  have hrefusal : world.directory.refusal "/dev/null" = none := by decide +kernel
  have hdone : (world.run ⟨0, 0⟩ line).1 = 0 := World.run_writingSample hparse hrefusal
  refine ⟨hdone, _, hparse, rfl, ?_⟩
  intro codec source hcompiles hholds
  have hplace : world.directory.system (Path.ofString "/dev/null").place =
      some (.device .empty .nowhere) := rfl
  have hkept : (world.run ⟨0, 0⟩ line).2.directory = world.directory := by
    rcases World.run_of_arguments world ⟨0, 0⟩ hparse with
      ⟨-, _, _, -, hreceived⟩ | ⟨hfailed, -⟩
    · exact hreceived.directory_of_device rfl hplace
    · exact absurd hdone hfailed
  have hempty : world.directory.system.contents "/dev/null" = .ok "".toUTF8 := rfl
  rw [hkept, hempty, Except.ok.injEq] at hholds
  obtain ⟨-, hemit⟩ := Arguments.compiles_writingSample hcompiles
  obtain rfl : RustText.source codec = source := Except.ok.inj hemit
  have hnil := congrArg String.toList (String.toByteArray_inj.mp hholds)
  exact Lines.toList_unlines_ne_nil (List.cons_ne_nil _ _) hnil.symm

end CommandWord
