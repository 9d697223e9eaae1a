import CommandWord.CommandLine.Directory
import Mathlib.Data.List.Basic

/-!
Reading after writing. A path that is accepted for writing leads through directories to a place
that is none, so writing to it puts no obstacle in its own way: unless a device stands there,
the path leads to a file with exactly the text that was written, and no other place is touched.
-/

namespace CommandWord

theorem bind_eq_ok_iff {ε α β : Type} {first : Except ε α} {next : α → Except ε β} {value : β} :
    (first >>= next) = .ok value ↔ ∃ middle, first = .ok middle ∧ next middle = .ok value := by
  cases first with
  | error cause => exact ⟨nofun, fun ⟨_, hmiddle, _⟩ => nomatch hmiddle⟩
  | ok middle =>
    refine ⟨fun hnext => ⟨middle, rfl, hnext⟩, ?_⟩
    rintro ⟨other, hother, hnext⟩
    rw [Except.ok.inj hother]
    exact hnext

namespace FileSystem

variable {system later : FileSystem} {text : String}

theorem step_eq_ok_iff {place next : Place} {name : FileName} :
    system.step place name = .ok next ↔
      system place = some .directory ∧ name.byteSize ≤ FileName.longest ∧
        place.step name = next := by
  unfold step
  split
  next hnone => simp [hnone]
  next hdirectory =>
    rw [hdirectory]
    split
    next hfits => simp [hfits]
    next hlong => simp [hlong]
  next node hother hnode =>
    refine ⟨nofun, fun ⟨hdirectory, _⟩ => ?_⟩
    rw [hnode] at hdirectory
    exact absurd (Option.some.inj hdirectory) hother

/-- Following names sees nothing but directories, so it goes the same way in a file system that
has kept them. -/
theorem foldlM_step_of_kept
    (hkept : ∀ place, system place = some .directory → later place = some .directory)
    {names : List FileName} {start place : Place}
    (hfollow : names.foldlM system.step start = .ok place) :
    names.foldlM later.step start = .ok place ∧ names.foldl Place.step start = place := by
  induction names generalizing start with
  | nil => exact ⟨hfollow, Except.ok.inj hfollow⟩
  | cons name rest ih =>
    rw [List.foldlM_cons, bind_eq_ok_iff] at hfollow
    obtain ⟨next, hstep, hrest⟩ := hfollow
    obtain ⟨hdirectory, hfits, rfl⟩ := step_eq_ok_iff.mp hstep
    obtain ⟨hlater, hplace⟩ := ih hrest
    refine ⟨?_, hplace⟩
    rw [List.foldlM_cons, bind_eq_ok_iff]
    exact ⟨_, step_eq_ok_iff.mpr ⟨hkept _ hdirectory, hfits, rfl⟩, hlater⟩

theorem path_eq_ok {path : Path} (hpath : FileSystem.path text = .ok path) :
    path = Path.ofString text := by
  unfold FileSystem.path at hpath
  split at hpath
  · contradiction
  · split at hpath
    · contradiction
    · split at hpath
      · contradiction
      · exact (Except.ok.inj hpath).symm

/-- A path that is accepted for writing names a place in a directory, and no directory stands
at the place. -/
theorem of_writable (hwritable : system.writable text = .ok ()) :
    FileSystem.path text = .ok (Path.ofString text) ∧ (Path.ofString text).endsInSlash = false ∧
      system.follow (Path.ofString text).start (Path.ofString text).names =
        .ok (Path.ofString text).place ∧
      system (Path.ofString text).place ≠ some .directory := by
  unfold writable at hwritable
  obtain ⟨path, hpath, hwritable⟩ := bind_eq_ok_iff.mp hwritable
  obtain rfl := path_eq_ok hpath
  obtain ⟨around, hfollow, hwritable⟩ := bind_eq_ok_iff.mp hwritable
  split at hwritable
  · contradiction
  next name hlast =>
    obtain ⟨place, hstep, hplace⟩ := bind_eq_ok_iff.mp hwritable
    split at hplace
    · contradiction
    next hname =>
      simp only [Bool.or_eq_true, not_or, Bool.not_eq_true] at hname
      rw [if_neg (by simp [hname])] at hstep
      have hnames : (Path.ofString text).names.dropLast ++ [name] = (Path.ofString text).names :=
        List.dropLast_append_getLast? name hlast
      have hall : system.follow (Path.ofString text).start (Path.ofString text).names =
          .ok place := by
        rw [← hnames, follow, List.foldlM_append, bind_eq_ok_iff]
        exact ⟨around, hfollow, by rw [List.foldlM_cons, hstep]; rfl⟩
      have hend : (Path.ofString text).place = place := (foldlM_step_of_kept (fun _ => id) hall).2
      refine ⟨hpath, hname.1, hend ▸ hall, ?_⟩
      intro hdirectory
      rw [hend] at hdirectory
      rw [hdirectory] at hplace
      contradiction

theorem write_of_ne {path : String} {place : Place} (hne : place ≠ (Path.ofString path).place) :
    system.write path text place = system place :=
  if_neg hne

theorem write_self {path : String}
    (hkept : ∀ gives sink, system (Path.ofString path).place ≠ some (.device gives sink)) :
    system.write path text (Path.ofString path).place = some (.file text.toUTF8) := by
  rw [write, if_pos rfl]
  split
  next gives sink hdevice => exact absurd hdevice (hkept gives sink)
  next => rfl

/-- The path of a text that was written leads to exactly this text. -/
theorem contents_write {path : String} (hwritable : system.writable path = .ok ())
    (hkept : ∀ gives sink, system (Path.ofString path).place ≠ some (.device gives sink)) :
    (system.write path text).contents path = .ok text.toUTF8 := by
  obtain ⟨hpath, hslash, hfollow, hplace⟩ := of_writable hwritable
  have hdirectories : ∀ place, system place = some .directory →
      system.write path text place = some .directory := by
    intro place hdirectory
    rw [write_of_ne, hdirectory]
    rintro rfl
    exact hplace hdirectory
  have hafter := (foldlM_step_of_kept hdirectories hfollow).1
  rw [contents, bind_eq_ok_iff]
  refine ⟨_, hpath, ?_⟩
  simp only [hslash, Bool.false_eq_true, if_false, List.append_nil]
  rw [bind_eq_ok_iff]
  refine ⟨_, hafter, ?_⟩
  rw [write_self hkept]

end FileSystem

/-- No device stands in a working directory that holds files alone. -/
theorem FileList.system_ne_device (files : FileList) {place : Place}
    (hbase : place.base = .working) (gives : ByteArray) (sink : Sink) :
    files.system place ≠ some (.device gives sink) := by
  simp only [system, hbase]
  split
  · nofun
  · split <;> nofun

end CommandWord
