import CommandWord.CommandLine.Program
import CommandWord.Proofs.CommandLine.Storage

/-!
Actions that fail before they change anything. What an action promises is told of the world that
it ends in: a goal if it has an answer, and if it fails, that neither the output nor the file
system has changed since the start of the run.
-/

namespace CommandWord

namespace World

variable (world : World) (text : String)

@[simp]
theorem print_output : (world.print text).output = world.output ++ text := rfl

@[simp]
theorem print_directory : (world.print text).directory = world.directory := rfl

@[simp]
theorem printError_output : (world.printError text).output = world.output := rfl

@[simp]
theorem printError_directory : (world.printError text).directory = world.directory := rfl

end World

/-- Nothing that a run is about has changed. The diagnostics are not among it. -/
structure World.Untouched (start later : World) : Prop where
  output : later.output = start.output
  directory : later.directory = start.directory

namespace World.Untouched

variable {start later : World}

theorem refl (world : World) : world.Untouched world := ⟨rfl, rfl⟩

theorem printError (huntouched : start.Untouched later) (text : String) :
    start.Untouched (later.printError text) :=
  ⟨huntouched.output, huntouched.directory⟩

end World.Untouched

/-- A part of a run that can fail. -/
abbrev Action (α : Type) := ExceptT Failure (StateM World) α

namespace Action

theorem run_bind {α β : Type} {first : Action α} {next : α → Action β} {world later : World}
    {value : α} (hfirst : first.run.run world = (.ok value, later)) :
    (first >>= next).run.run world = (next value).run.run later := by
  simp only [ExceptT.run_bind, StateT.run_bind, hfirst]
  rfl

/-- From this world on, the action reaches its goal or fails with nothing changed since the
start. -/
def AllOrNothing {α : Type} (action : Action α) (start world : World)
    (goal : α → World → Prop) : Prop :=
  match action.run.run world with
  | (.ok value, later) => goal value later
  | (.error _, later) => start.Untouched later

namespace AllOrNothing

variable {α β : Type} {start world : World} {goal : α → World → Prop} {final : β → World → Prop}

theorem pure {value : α} (hgoal : goal value world) :
    AllOrNothing (Pure.pure value) start world goal :=
  hgoal

theorem throw {failure : Failure} (huntouched : start.Untouched world) :
    AllOrNothing (MonadExcept.throw failure : Action α) start world goal :=
  huntouched

theorem imp {action : Action α} {other : α → World → Prop}
    (haction : action.AllOrNothing start world goal)
    (hgoal : ∀ value later, goal value later → other value later) :
    action.AllOrNothing start world other := by
  unfold AllOrNothing at haction ⊢
  split at haction
  next value later hending => simpa only [hending] using hgoal value later haction
  next failure later hending => simpa only [hending] using haction

/-- What cannot fail need only reach the goal. -/
theorem lift {action : StateM World α} (hgoal : goal (action world).1 (action world).2) :
    AllOrNothing (liftM action) start world goal :=
  hgoal

theorem bind {first : Action α} {next : α → Action β}
    (hfirst : first.AllOrNothing start world goal)
    (hnext : ∀ value later, goal value later → (next value).AllOrNothing start later final) :
    AllOrNothing (first >>= next) start world final := by
  unfold AllOrNothing at hfirst ⊢
  simp only [ExceptT.run_bind, StateT.run_bind]
  generalize first.run.run world = ending at hfirst ⊢
  obtain ⟨failure | value, later⟩ := ending
  · exact hfirst
  · exact hnext value later hfirst

end AllOrNothing

end Action

/-- Where a source and a summary have gone. To a device that is not the output goes a source that
is not seen again. -/
inductive World.Received (start : World) (out : Option String) (source summary : String)
    (later : World) : Prop where
  | output (hout : out = none) (houtput : later.output = start.output ++ source)
      (hdirectory : later.directory = start.directory)
  | file (path : String) (hout : out = some path)
      (hplace : ∀ gives sink,
        start.directory.system (Path.ofString path).place ≠ some (.device gives sink))
      (hholds : later.directory.system.contents path = .ok source.toUTF8)
      (hkept : ∀ place, place ≠ (Path.ofString path).place →
        later.directory.system place = start.directory.system place)
      (houtput : later.output = start.output ++ summary)
  | device (path : String) (gives : ByteArray) (sink : Sink) (hout : out = some path)
      (hplace : start.directory.system (Path.ofString path).place = some (.device gives sink))
      (hdirectory : later.directory = start.directory)
      (houtput : later.output =
        start.output ++ (if sink = .output then source else "") ++ summary)

namespace World

variable {start world later : World} {path source summary : String}

theorem writable_of_refusal {directory : Directory} (hrefusal : directory.refusal path = none) :
    directory.system.writable path = .ok () := by
  unfold Directory.refusal at hrefusal
  split at hrefusal
  · contradiction
  · contradiction
  next hwritable => exact hwritable

theorem put_of_not_device (source : String)
    (hplace : ∀ gives sink,
      world.directory.system (Path.ofString path).place ≠ some (.device gives sink)) :
    (world.put path source).output = world.output ∧
      (world.put path source).directory.system = world.directory.system.write path source := by
  unfold put
  split
  next gives hdevice => exact absurd hdevice (hplace _ _)
  next gives hdevice => exact absurd hdevice (hplace _ _)
  next gives hdevice => exact absurd hdevice (hplace _ _)
  next => exact ⟨rfl, rfl⟩

theorem put_of_device (source : String) {gives : ByteArray} {sink : Sink}
    (hplace : world.directory.system (Path.ofString path).place = some (.device gives sink)) :
    (world.put path source).output = world.output ++ (if sink = .output then source else "") ∧
      (world.put path source).directory = world.directory := by
  cases sink <;> simp [put, hplace]

/-- A source at a path that is not refused, with no summary behind it yet. -/
theorem put_received (huntouched : start.Untouched world)
    (hrefusal : world.directory.refusal path = none) :
    start.Received (some path) source "" (world.put path source) := by
  obtain ⟨houtput, hdirectory⟩ := huntouched
  by_cases hdevice : ∃ gives sink,
      world.directory.system (Path.ofString path).place = some (.device gives sink)
  · obtain ⟨gives, sink, hplace⟩ := hdevice
    obtain ⟨hput, hkept⟩ := put_of_device source hplace
    refine .device path gives sink rfl (hdirectory ▸ hplace) (hkept.trans hdirectory) ?_
    rw [hput, houtput, String.append_empty]
  · have hplace : ∀ gives sink,
        world.directory.system (Path.ofString path).place ≠ some (.device gives sink) :=
      fun gives sink hthere => hdevice ⟨gives, sink, hthere⟩
    obtain ⟨hput, hsystem⟩ := put_of_not_device source hplace
    refine .file path rfl (hdirectory ▸ hplace) ?_ ?_ ?_
    · rw [hsystem]
      exact FileSystem.contents_write (writable_of_refusal hrefusal) hplace
    · intro place hne
      rw [hsystem, FileSystem.write_of_ne hne, hdirectory]
    · rw [hput, houtput, String.append_empty]

theorem Received.print (hreceived : start.Received (some path) source "" later) (text : String) :
    start.Received (some path) source text (later.print text) := by
  cases hreceived with
  | output hout => contradiction
  | file path hout hplace hholds hkept houtput =>
    refine .file path hout hplace hholds hkept ?_
    rw [print_output, houtput, String.append_empty]
  | device path gives sink hout hplace hdirectory houtput =>
    refine .device path gives sink hout hplace hdirectory ?_
    rw [print_output, houtput, String.append_empty]

theorem Received.directory_of_device {gives : ByteArray} {sink : Sink} {out : Option String}
    (hreceived : start.Received out source summary later) (hout : out = some path)
    (hplace : start.directory.system (Path.ofString path).place = some (.device gives sink)) :
    later.directory = start.directory := by
  subst hout
  cases hreceived with
  | output hout => contradiction
  | file path' hout hnone =>
    obtain rfl := Option.some.inj hout
    exact absurd hplace (hnone gives sink)
  | device _ _ _ _ _ hdirectory => exact hdirectory

/-- Without a file the output is the source, whatever the summary. -/
theorem Received.printError (hreceived : start.Received none source "" later) (text : String) :
    start.Received none source summary (later.printError text) := by
  cases hreceived with
  | output hout houtput hdirectory => exact .output hout houtput hdirectory
  | file path hout => contradiction
  | device path gives sink hout => contradiction

end World

end CommandWord
