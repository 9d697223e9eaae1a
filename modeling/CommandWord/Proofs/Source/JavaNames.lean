import CommandWord.Proofs.Source.Java

/-!
The names in a Java source. A source is emitted when its width has a signed word and its class,
its package and the commands have names that the language admits; otherwise the error names the
first of these that is at fault. The class encloses two types of its own, `Label` and `Message`,
and a class may not have the name of a type inside it. The emission does not look at this: it
answers as if no name were taken, which is right for every class but those two.
-/

namespace CommandWord.JavaText

/-! ### Names of the language -/

/-- An ASCII letter, the underscore or the dollar sign. -/
def BeginsName (c : Char) : Prop :=
  'A' ≤ c ∧ c ≤ 'Z' ∨ 'a' ≤ c ∧ c ≤ 'z' ∨ c = '_' ∨ c = '$'

def ContinuesName (c : Char) : Prop :=
  BeginsName c ∨ '0' ≤ c ∧ c ≤ '9'

/-- A word that the language reads as a name. -/
structure IsName (name : String) : Prop where
  spelled : ∃ first rest,
    name.toList = first :: rest ∧ BeginsName first ∧ ∀ c ∈ rest, ContinuesName c
  not_reserved : name ∉ reservedWords

/-- Nothing, or one or more names with a dot between each and the next. -/
def IsPackageName (package : String) : Prop :=
  package = "" ∨
    ∃ parts, parts ≠ [] ∧ (∀ part ∈ parts, IsName part) ∧ package = ".".intercalate parts

variable {name package className : String} {c : Char}

theorem beginsName_iff : (c.isAlpha || c == '_' || c == '$') = true ↔ BeginsName c := by
  simp only [BeginsName, Bool.or_eq_true, beq_iff_eq, isAlpha_iff, or_assoc]

theorem continuesName_iff : (c.isAlphanum || c == '_' || c == '$') = true ↔ ContinuesName c := by
  rw [ContinuesName, ← beginsName_iff]
  simp only [Bool.or_eq_true, beq_iff_eq, isAlphanum_iff]
  tauto

theorem isJavaIdentifier_iff : IsJavaIdentifier name ↔ IsName name := by
  unfold IsJavaIdentifier
  rw [isSpelled_iff]
  simp only [beginsName_iff, continuesName_iff]
  constructor
  · intro hname
    exact ⟨hname.1, hname.2⟩
  · intro hname
    exact ⟨hname.spelled, hname.not_reserved⟩

theorem IsName.dot_notMem (hname : IsName name) : '.' ∉ name.toList :=
  (isJavaIdentifier_iff.mpr hname).1.notMem rfl rfl

/-- The parts between the dots of a package are the names that it was put together from. -/
theorem isPackage_iff : IsPackage package ↔ IsPackageName package := by
  apply or_congr_right
  constructor
  · intro hparts
    refine ⟨(package.toList.splitOn '.').map String.ofList, ?_, ?_, ?_⟩
    · simp
    · intro part hpart
      obtain ⟨chars, hchars, rfl⟩ := List.mem_map.mp hpart
      exact isJavaIdentifier_iff.mp (hparts chars hchars)
    · apply String.toList_injective
      rw [String.toList_intercalate, List.map_map]
      simp [Function.comp_def, List.intercalate_splitOn]
  · intro hpackage part hpart
    obtain ⟨parts, hnil, hparts, rfl⟩ := hpackage
    have hdots : ∀ chars ∈ parts.map String.toList, '.' ∉ chars := by
      intro chars hchars
      obtain ⟨name, hname, rfl⟩ := List.mem_map.mp hchars
      exact (hparts name hname).dot_notMem
    have hsplit := List.splitOn_intercalate '.' hdots (by simpa using hnil)
    have hmem : part ∈ parts.map String.toList := by
      rw [← hsplit]
      simpa [String.toList_intercalate] using hpart
    obtain ⟨name, hname, rfl⟩ := List.mem_map.mp hmem
    rw [String.ofList_toList]
    exact isJavaIdentifier_iff.mpr (hparts name hname)

/-- An identifier of a registry can only be at fault for being a reserved word. -/
theorem isJavaIdentifier_iff_of_isIdentifier (hname : IsIdentifier name) :
    IsJavaIdentifier name ↔ name ∉ reservedWords := by
  refine and_iff_right (hname.mono ?_ ?_)
  · intro c hc
    simp [hc]
  · intro c hc
    simp [hc]

/-! ### What a source demands -/

/-- What has to be right for a source, in the order in which it is looked at. -/
inductive Demand where
  | width
  | classNamed
  | packageNamed
  | commandsNamed
  deriving DecidableEq

namespace Demand

/-- The demands in the order in which they are looked at. -/
def order : List Demand := [width, classNamed, packageNamed, commandsNamed]

theorem mem_order (demand : Demand) : demand ∈ order := by
  cases demand <;> decide

/-- What a demand asks of a codec and its names. The class may not have one of the names that are
taken. -/
def Met (taken : List String) (codec : Codec) (package className : String) : Demand → Prop
  | width => codec.totalBits ≤ 63
  | classNamed => IsName className ∧ className ∉ taken
  | packageNamed => IsPackageName package
  | commandsNamed => ∀ command ∈ codec.registry.commands, command.name ∉ reservedWords

/-- The cause reports the demand. Of the commands it names the first whose name is reserved. -/
def Reports (codec : Codec) (package className : String) (cause : ConfigurationError) :
    Demand → Prop
  | width => cause = .unsupportedTarget "java" codec.totalBits
  | classNamed => cause = .invalidName className
  | packageNamed => cause = .invalidName package
  | commandsNamed => ∃ front command back,
      codec.registry.commands = front ++ command :: back ∧
        (∀ earlier ∈ front, earlier.name ∉ reservedWords) ∧
        command.name ∈ reservedWords ∧ cause = .invalidName command.name

/-- The demand is the first that is not met. -/
abbrev FirstUnmet (taken : List String) (codec : Codec) (package className : String)
    (demand : Demand) : Prop :=
  FirstFailure (fun demand : Demand => demand.Met taken codec package className) order demand

end Demand

/-- Java sources are emitted as the demands say: for a codec and names that meet all of them, and
otherwise there is an error, which reports the first that is not met. -/
structure Answers (taken : List String) (codec : Codec) (package className : String) : Prop where
  exists_ok_iff : (∃ text, codec.emit (.java package className) = .ok text) ↔
    ∀ demand : Demand, demand.Met taken codec package className
  reports : ∀ cause, codec.emit (.java package className) = .error cause →
    ∃ demand : Demand, demand.FirstUnmet taken codec package className ∧
      demand.Reports codec package className cause

/-- The types that a source declares inside its class. -/
def nestedTypes : List String := ["Label", "Message"]

variable {taken : List String} {codec : Codec}

namespace Demand

theorem met_or_firstUnmet (taken : List String) (codec : Codec) (package className : String) :
    (∀ demand : Demand, demand.Met taken codec package className) ∨
      ∃ demand : Demand, demand.FirstUnmet taken codec package className := by
  rcases passes_or_firstFailure (fun demand : Demand => demand.Met taken codec package className)
    order with hall | hfirst
  · exact Or.inl fun demand => hall demand demand.mem_order
  · exact Or.inr hfirst

end Demand

/-! ### What the emission answers -/

theorem emit_of_wide (hwidth : ¬ codec.totalBits ≤ 63) :
    codec.emit (.java package className) = .error (.unsupportedTarget "java" codec.totalBits) := by
  have hword : SignedWord.ofTotalBits? codec.totalBits = none := by
    rw [SignedWord.ofTotalBits?, if_neg (by omega), if_neg hwidth]
  simp only [Codec.emit, source, hword]

theorem emit_of_nameFault (hwidth : codec.totalBits ≤ 63) {cause : ConfigurationError}
    (hfault : nameFault codec package className = some cause) :
    codec.emit (.java package className) = .error cause := by
  obtain ⟨word, hword, -⟩ := exists_signedWord hwidth rfl
  simp only [Codec.emit, source, hword, hfault]

theorem emit_of_no_nameFault (hwidth : codec.totalBits ≤ 63)
    (hfault : nameFault codec package className = none) :
    ∃ text, codec.emit (.java package className) = .ok text := by
  obtain ⟨word, hword, -⟩ := exists_signedWord hwidth rfl
  simp only [Codec.emit, source, hword, hfault]
  exact ⟨_, rfl⟩

theorem isJavaIdentifier_command {command : Command}
    (hcommand : command ∈ codec.registry.commands) :
    IsJavaIdentifier command.name ↔ command.name ∉ reservedWords :=
  isJavaIdentifier_iff_of_isIdentifier (codec.registry.valid.usable command hcommand).1

/-- A search for a command with a fault finds the first whose name is reserved. -/
theorem find?_command_eq_none_iff :
    (codec.registry.commands.find? fun command => ¬ IsJavaIdentifier command.name) = none ↔
      ∀ command ∈ codec.registry.commands, command.name ∉ reservedWords := by
  rw [List.find?_eq_none]
  refine forall₂_congr fun command hcommand => ?_
  rw [← isJavaIdentifier_command hcommand]
  simp

theorem first_reserved_of_find? {command : Command}
    (hfind : (codec.registry.commands.find? fun command => ¬ IsJavaIdentifier command.name) =
      some command) :
    ∃ front back, codec.registry.commands = front ++ command :: back ∧
      (∀ earlier ∈ front, earlier.name ∉ reservedWords) ∧ command.name ∈ reservedWords := by
  obtain ⟨hfault, front, back, hsplit, hfront⟩ := List.find?_eq_some_iff_append.mp hfind
  refine ⟨front, back, hsplit, ?_, ?_⟩
  · intro earlier hearlier
    have hmem : earlier ∈ codec.registry.commands := by
      rw [hsplit]
      exact List.mem_append_left _ hearlier
    have hname := hfront earlier hearlier
    rw [← isJavaIdentifier_command hmem]
    simpa using hname
  · have hmem : command ∈ codec.registry.commands := by
      rw [hsplit]
      exact List.mem_append_right _ List.mem_cons_self
    by_contra hreserved
    rw [← isJavaIdentifier_command hmem] at hreserved
    simp [hreserved] at hfault

theorem emit_of_met
    (hmet : ∀ demand : Demand, demand.Met [] codec package className) :
    ∃ text, codec.emit (.java package className) = .ok text := by
  have hclass : IsName className := (hmet .classNamed).1
  have hpackage : IsPackageName package := hmet .packageNamed
  apply emit_of_no_nameFault (hmet .width)
  rw [nameFault, if_neg (not_not.mpr (isJavaIdentifier_iff.mpr hclass)),
    if_neg (not_not.mpr (isPackage_iff.mpr hpackage)),
    find?_command_eq_none_iff.mpr (hmet .commandsNamed), Option.map_none]

theorem emit_of_firstUnmet {demand : Demand}
    (hfirst : demand.FirstUnmet [] codec package className) :
    ∃ cause, codec.emit (.java package className) = .error cause ∧
      demand.Reports codec package className cause := by
  obtain ⟨hunmet, hearlier⟩ := hfirst
  cases demand with
  | width => exact ⟨_, emit_of_wide hunmet, rfl⟩
  | classNamed =>
    have hwidth : codec.totalBits ≤ 63 := hearlier .width (by decide)
    have hclass : ¬ IsName className := fun hname => hunmet ⟨hname, List.not_mem_nil⟩
    refine ⟨.invalidName className, emit_of_nameFault hwidth ?_, rfl⟩
    rw [nameFault, if_pos (isJavaIdentifier_iff.not.mpr hclass)]
  | packageNamed =>
    have hwidth : codec.totalBits ≤ 63 := hearlier .width (by decide)
    have hclass : IsName className := (hearlier .classNamed (by decide)).1
    refine ⟨.invalidName package, emit_of_nameFault hwidth ?_, rfl⟩
    rw [nameFault, if_neg (not_not.mpr (isJavaIdentifier_iff.mpr hclass)),
      if_pos (isPackage_iff.not.mpr hunmet)]
  | commandsNamed =>
    have hwidth : codec.totalBits ≤ 63 := hearlier .width (by decide)
    have hclass : IsName className := (hearlier .classNamed (by decide)).1
    have hpackage : IsPackageName package := hearlier .packageNamed (by decide)
    have hsome := find?_command_eq_none_iff.not.mpr hunmet
    obtain ⟨command, hfind⟩ := Option.ne_none_iff_exists'.mp hsome
    obtain ⟨front, back, hsplit, hfront, hreserved⟩ := first_reserved_of_find? hfind
    refine ⟨.invalidName command.name, emit_of_nameFault hwidth ?_,
      front, command, back, hsplit, hfront, hreserved, rfl⟩
    rw [nameFault, if_neg (not_not.mpr (isJavaIdentifier_iff.mpr hclass)),
      if_neg (not_not.mpr (isPackage_iff.mpr hpackage)), hfind, Option.map_some]

/-- The emission answers as if no name were taken. -/
theorem answers_nil (codec : Codec) (package className : String) :
    Answers [] codec package className := by
  rcases Demand.met_or_firstUnmet [] codec package className with hmet | ⟨demand, hfirst⟩
  · obtain ⟨text, hemit⟩ := emit_of_met hmet
    constructor
    · exact ⟨fun _ => hmet, fun _ => ⟨text, hemit⟩⟩
    · intro cause herror
      rw [hemit] at herror
      contradiction
  · obtain ⟨cause, herror, hreports⟩ := emit_of_firstUnmet hfirst
    constructor
    · constructor
      · intro hok
        obtain ⟨text, hemit⟩ := hok
        rw [herror] at hemit
        contradiction
      · intro hmet
        exact absurd (hmet demand) hfirst.fails
    · intro other hother
      rw [herror] at hother
      rw [← Except.error.inj hother]
      exact ⟨demand, hfirst, hreports⟩

/-! ### Taken names -/

/-- As long as the class does not have a taken name, the demands ask the same. -/
theorem Demand.met_iff_of_notMem (hclass : className ∉ taken) (demand : Demand) :
    demand.Met taken codec package className ↔ demand.Met [] codec package className := by
  cases demand with
  | width => exact Iff.rfl
  | classNamed => simp [Met, hclass]
  | packageNamed => exact Iff.rfl
  | commandsNamed => exact Iff.rfl

theorem answers_of_notMem (hclass : className ∉ taken) :
    Answers taken codec package className := by
  have hsame : ∀ demand : Demand, demand.Met taken codec package className ↔
      demand.Met [] codec package className := Demand.met_iff_of_notMem hclass
  obtain ⟨hok, hreports⟩ := answers_nil codec package className
  constructor
  · rw [hok]
    exact forall_congr' fun demand => (hsame demand).symm
  · intro cause herror
    obtain ⟨demand, ⟨hunmet, hearlier⟩, hcause⟩ := hreports cause herror
    refine ⟨demand, ⟨?_, ?_⟩, hcause⟩
    · rwa [hsame demand]
    · intro other hother
      exact (hsame other).mpr (hearlier other hother)

/-- Without a signed word the names do not count. -/
theorem answers_of_wide (hwidth : ¬ codec.totalBits ≤ 63) :
    Answers taken codec package className := by
  have hemit : codec.emit (.java package className) =
      .error (.unsupportedTarget "java" codec.totalBits) := emit_of_wide hwidth
  constructor
  · constructor
    · intro hok
      obtain ⟨text, hok⟩ := hok
      rw [hemit] at hok
      contradiction
    · intro hmet
      exact absurd (hmet .width) hwidth
  · intro cause herror
    rw [hemit] at herror
    rw [← Except.error.inj herror]
    exact ⟨.width, ⟨hwidth, by simp [Demand.order]⟩, rfl⟩

/-- A class that has a taken name is not refused: the answer is a source, or an error about what
comes after the class. -/
theorem not_answers_of_mem (hwidth : codec.totalBits ≤ 63) (hname : IsName className)
    (hclass : className ∈ taken) : ¬ Answers taken codec package className := by
  intro hanswers
  cases hemit : codec.emit (.java package className) with
  | ok text =>
    have hmet := hanswers.exists_ok_iff.mp ⟨text, hemit⟩ .classNamed
    exact hmet.2 hclass
  | error cause =>
    -- the demands blame the class, while the emission has nothing against its name
    have hcause : cause = .invalidName className := by
      obtain ⟨demand, hfirst, hreports⟩ := hanswers.reports cause hemit
      cases demand with
      | width => exact absurd hwidth hfirst.fails
      | classNamed => exact hreports
      | packageNamed | commandsNamed =>
        exact absurd hclass (hfirst.earlier .classNamed (by decide)).2
    obtain ⟨demand, hfirst, hreports⟩ := (answers_nil codec package className).reports cause hemit
    rw [hcause] at hreports
    cases demand with
    | width => exact hfirst.fails hwidth
    | classNamed => exact hfirst.fails ⟨hname, List.not_mem_nil⟩
    | packageNamed =>
      obtain rfl : className = package := ConfigurationError.invalidName.inj hreports
      exact hfirst.fails (Or.inr ⟨[className], by simp, by simpa using hname, by simp⟩)
    | commandsNamed =>
      obtain ⟨front, command, back, -, -, hreserved, heq⟩ := hreports
      rw [← ConfigurationError.invalidName.inj heq] at hreserved
      exact hname.not_reserved hreserved

theorem answers_iff (htaken : ∀ name ∈ taken, IsName name) :
    Answers taken codec package className ↔ (codec.totalBits ≤ 63 → className ∉ taken) := by
  constructor
  · intro hanswers hwidth hclass
    exact not_answers_of_mem hwidth (htaken className hclass) hclass hanswers
  · intro hclass
    by_cases hwidth : codec.totalBits ≤ 63
    · exact answers_of_notMem (hclass hwidth)
    · exact answers_of_wide hwidth

theorem isName_of_mem_nestedTypes : ∀ name ∈ nestedTypes, IsName name := by
  intro name hname
  apply isJavaIdentifier_iff.mp
  revert name
  decide

/-- A line declares a type of this name inside the class. -/
def DeclaresType (lines : List String) (name : String) : Prop :=
  ∃ kind ∈ ["enum", "static final class"], s!"    public {kind} {name} \x7b" ∈ lines

theorem declaresType_types (codec : Codec) (word : SignedWord) :
    ∀ name ∈ nestedTypes, DeclaresType (types codec word) name := by
  intro name hname
  simp only [nestedTypes, List.mem_cons, List.not_mem_nil, or_false] at hname
  rcases hname with rfl | rfl
  · exact ⟨"enum", by decide, List.mem_cons_self⟩
  · refine ⟨"static final class", by decide, ?_⟩
    have hdrop : "    public static final class Message \x7b" ∈ (types codec word).drop 4 :=
      List.mem_cons_self
    exact List.mem_of_mem_drop hdrop

/-- A source declares its class and, inside it, the nested types. -/
theorem exists_lines_of_emit {text : String}
    (hemit : codec.emit (.java package className) = .ok text) :
    ∃ lines, text = Lines.unlines lines ∧ s!"public final class {className} \x7b" ∈ lines ∧
      ∀ name ∈ nestedTypes, DeclaresType lines name := by
  simp only [Codec.emit, source] at hemit
  split at hemit
  · contradiction
  next word hword =>
    split at hemit
    · contradiction
    · refine ⟨_, (Except.ok.inj hemit).symm, ?_, ?_⟩
      · simp [banner, opening]
      · intro name hname
        obtain ⟨kind, hkind, hline⟩ := declaresType_types codec word name hname
        refine ⟨kind, hkind, ?_⟩
        simp only [List.mem_append]
        simp [hline]

/-- A source is emitted exactly when the width, the class, the package and the commands are as
demanded, and an error reports the first of them that is not. The nested types, which every source
declares inside its class, are no part of this: with their names taken the answers are the demanded
ones exactly when there is no signed word or the class has neither name. -/
theorem emit_answers_unless_nested (codec : Codec) (package className : String) :
    Answers [] codec package className ∧
      (∀ text, codec.emit (.java package className) = .ok text →
        ∃ lines, text = Lines.unlines lines ∧ s!"public final class {className} \x7b" ∈ lines ∧
          ∀ name ∈ nestedTypes, DeclaresType lines name) ∧
      (Answers nestedTypes codec package className ↔
        (codec.totalBits ≤ 63 → className ∉ nestedTypes)) :=
  ⟨answers_nil codec package className, fun _ hemit => exists_lines_of_emit hemit,
    answers_iff isName_of_mem_nestedTypes⟩

/-- A class `Label` with the type `Label` inside it. -/
theorem emit_class_named_label :
    ∃ codec text lines,
      Codec.build 8 [⟨"A", [3]⟩] .perCommand (.fixed 0x5A) = .ok codec ∧
        codec.emit (.java "" "Label") = .ok text ∧ text = Lines.unlines lines ∧
        "public final class Label \x7b" ∈ lines ∧ DeclaresType lines "Label" ∧
        ¬ Answers nestedTypes codec "" "Label" := by
  obtain ⟨codec, hbuild⟩ : ∃ codec,
      Codec.build 8 [⟨"A", [3]⟩] .perCommand (.fixed 0x5A) = .ok codec :=
    Codec.exists_build (by rintro (_ | _ | _ | _) <;> decide)
  obtain ⟨hbits, hcommands, -, -⟩ := Codec.inputs_of_build hbuild
  have hbits : codec.totalBits = 8 := hbits
  have hname := isName_of_mem_nestedTypes "Label" (by decide)
  obtain ⟨text, hemit⟩ : ∃ text, codec.emit (.java "" "Label") = .ok text := by
    apply emit_of_met
    intro demand
    cases demand with
    | width =>
      show codec.totalBits ≤ 63
      omega
    | classNamed => exact ⟨hname, List.not_mem_nil⟩
    | packageNamed => exact Or.inl rfl
    | commandsNamed =>
      show ∀ command ∈ codec.registry.commands, command.name ∉ reservedWords
      rw [hcommands]
      decide
  obtain ⟨lines, hlines, hclass, hnested⟩ := exists_lines_of_emit hemit
  exact ⟨codec, text, lines, hbuild, hemit, hlines, hclass, hnested "Label" (by decide),
    not_answers_of_mem (by omega) hname (by decide)⟩

end CommandWord.JavaText
