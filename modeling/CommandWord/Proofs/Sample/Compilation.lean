import CommandWord.Proofs.Codec.Compilation
import CommandWord.Proofs.Random.Range
import CommandWord.Sample

/-!
When a random registry compiles. Whatever is drawn, as long as each number is in its range, the
payloads stay within the budget that leaves the headers one bit more than the count of the
commands needs, or no payload has any bits at all. The names differ by their numbers alone, and so
do their variants. A random registry therefore compiles exactly when some registry of so many
commands could.
-/

namespace CommandWord

theorem toLower_of_isDigit {c : Char} (hdigit : c.isDigit) : c.toLower = c := by
  have hbelow : c.val.toNat ≤ '9'.toNat := (Char.isDigit_iff_toNat.mp hdigit).2
  unfold Char.toLower
  refine dif_neg fun hupper => ?_
  exact absurd (Nat.le_trans (UInt32.le_iff_toNat_le.mp hupper.1) hbelow) (by decide)

theorem toUpper_of_isDigit {c : Char} (hdigit : c.isDigit) : c.toUpper = c := by
  have hbelow : c.val.toNat ≤ '9'.toNat := (Char.isDigit_iff_toNat.mp hdigit).2
  unfold Char.toUpper
  refine dif_neg fun hlower => ?_
  exact absurd (Nat.le_trans (UInt32.le_iff_toNat_le.mp hlower.1) hbelow) (by decide)

theorem capitalize_of_isDigit {digits : List Char} (hdigits : ∀ c ∈ digits, c.isDigit) :
    capitalize digits = digits := by
  cases digits with
  | nil => rfl
  | cons first rest =>
    obtain ⟨hfirst, hrest⟩ := List.forall_mem_cons.mp hdigits
    rw [capitalize, toUpper_of_isDigit hfirst,
      List.map_congr_left fun c hc => toLower_of_isDigit (hrest c hc), List.map_id']

namespace Sample

/-- The name of a random command. -/
def numberedName (number : Nat) : String := "CMD_" ++ toString number

def numberedVariant (number : Nat) : String := "Cmd" ++ toString number

theorem toList_numberedName (number : Nat) :
    (numberedName number).toList = ['C', 'M', 'D'] ++ '_' :: Nat.toDigits 10 number := by
  rw [numberedName, String.toList_append, Nat.toString_eq_ofList_toDigits, String.toList_ofList]
  simp

theorem variant_numberedName (number : Nat) (fields : List Nat) :
    Command.variant ⟨numberedName number, fields⟩ = numberedVariant number := by
  have hdigits : ∀ c ∈ Nat.toDigits 10 number, c.isDigit := fun c hc =>
    Nat.isDigit_of_mem_toDigits (by decide) (by decide) hc
  have hparts : nameParts (numberedName number).toList =
      [['C', 'M', 'D'], Nat.toDigits 10 number] := by
    rw [nameParts, toList_numberedName,
      List.splitOn_append_cons_self_of_not_mem (by decide),
      List.splitOn_eq_singleton Nat.underscore_not_in_toDigits]
    simp [Nat.toDigits_ne_nil]
  simp only [Command.variant, hparts, List.flatMap_cons, List.flatMap_nil, List.append_nil]
  rw [capitalize_of_isDigit hdigits, String.ofList_append, numberedVariant,
    Nat.toString_eq_ofList_toDigits]
  rfl

theorem numberedVariant_injective : Function.Injective numberedVariant := by
  intro first second heq
  simp only [numberedVariant, String.append_right_inj, Nat.toString_eq_ofList_toDigits,
    String.ofList_inj] at heq
  rw [← Nat.ofDigitChars_ten_toDigits (n := first), heq, Nat.ofDigitChars_ten_toDigits]

theorem hasUsableName_numberedName (number : Nat) (fields : List Nat) :
    Command.HasUsableName ⟨numberedName number, fields⟩ := by
  have hrest : ∀ c ∈ Nat.toDigits 10 number, (c.isAlphanum || c == '_') = true := by
    intro c hc
    have hdigit := Nat.isDigit_of_mem_toDigits (by decide) (by decide) hc
    simp [Char.isAlphanum, hdigit]
  have hvariant : (numberedVariant number).toList = ['C', 'm', 'd'] ++ Nat.toDigits 10 number := by
    rw [numberedVariant, String.toList_append, Nat.toString_eq_ofList_toDigits,
      String.toList_ofList]
    simp
  rw [Command.HasUsableName, variant_numberedName]
  refine ⟨?_, ?_, ?_⟩
  · simp only [IsIdentifier, IsSpelled, toList_numberedName, List.cons_append]
    simpa using hrest
  · simp only [IsIdentifier, IsSpelled, hvariant, List.cons_append]
    simpa using hrest
  · intro heq
    have hlist := congrArg String.toList heq
    simp [hvariant] at hlist

theorem lt_two_pow_bitLength (n : Nat) : n < 2 ^ bitLength n := by
  unfold bitLength
  split
  next hzero => simp [hzero]
  next => exact Nat.lt_log2_self

/-- Where the largest payload has no bits, every header is as short as any. -/
theorem shortestCount_of_largestPayload_eq_zero {totalBits : Nat} {commands : List Command}
    (layout : Layout) (hzero : largestPayload commands = 0) :
    Stage.shortestCount totalBits commands layout = commands.length := by
  rw [Stage.shortestCount, List.countP_eq_length]
  intro command hmem
  have hsum := (largestPayload_isGreatest (List.ne_nil_of_mem hmem)).2 command hmem
  have hupper := layout.headerLength_add_le totalBits hmem (by omega)
  have hlower := layout.le_headerLength totalBits hmem
  rw [decide_eq_true_iff]
  omega

section

variable [Randomness]

/-- Each field takes no more than the fields before it have left. -/
theorem sum_randomFields_le (hrange : Randomness.InRange) (arity budget : Nat)
    (state : Randomness.State) : (randomFields arity budget state).1.sum ≤ budget := by
  induction arity generalizing budget state with
  | zero => simp [randomFields]
  | succ arity ih =>
    rw [randomFields]
    split
    · simp
    next hbudget =>
      have hwidth := (hrange state 1 1 (min budget 8) (by omega)).2
      have hrest := ih (budget - (Randomness.between state 1 1 (min budget 8)).1)
        (Randomness.between state 1 1 (min budget 8)).2
      simp only [List.sum_cons]
      omega

theorem mem_randomCommands (hrange : Randomness.InRange) {budget : Nat} {numbers : List Nat}
    {state : Randomness.State} {command : Command}
    (hmem : command ∈ randomCommands budget numbers state) :
    ∃ number, command.name = numberedName number ∧ command.fields.sum ≤ budget := by
  induction numbers generalizing state with
  | nil => contradiction
  | cons number rest ih =>
    rcases List.mem_cons.mp hmem with rfl | hrest
    · exact ⟨number, rfl, sum_randomFields_le hrange _ _ _⟩
    · exact ih hrest

theorem map_variant_randomCommands (budget : Nat) (numbers : List Nat)
    (state : Randomness.State) :
    (randomCommands budget numbers state).map Command.variant =
      numbers.map numberedVariant := by
  induction numbers generalizing state with
  | nil => rfl
  | cons number rest ih =>
    rw [randomCommands, List.map_cons, List.map_cons, ih]
    exact congrArg (· :: _) (variant_numberedName number _)

variable {seed : UInt64} {totalBits count : Nat}

theorem length_random (seed : UInt64) (totalBits count : Nat) :
    (random seed totalBits count).length = count := by
  have hvariants := congrArg List.length (map_variant_randomCommands
    (payloadBudget totalBits count) (List.range count) (Randomness.ofSeed seed))
  simpa [random] using hvariants

/-- The names are as good as their number: usable, and no two of them alike. -/
theorem validRegistry_random (hrange : Randomness.InRange) (hone : 1 ≤ totalBits)
    (hword : totalBits ≤ 64) (hcount : 1 ≤ count) :
    ValidRegistry totalBits (random seed totalBits count) := by
  refine ⟨hone, hword, ?_, ?_, ?_⟩
  · intro hnil
    have hlength := length_random seed totalBits count
    rw [hnil, List.length_nil] at hlength
    omega
  · intro command hmem
    obtain ⟨number, hname, -⟩ := mem_randomCommands hrange hmem
    have hcommand : command = ⟨numberedName number, command.fields⟩ := by rw [← hname]
    rw [hcommand]
    exact hasUsableName_numberedName number command.fields
  · rw [random, map_variant_randomCommands]
    exact List.nodup_range.map numberedVariant_injective

theorem largestPayload_random_le (hrange : Randomness.InRange) (hcount : 1 ≤ count) :
    largestPayload (random seed totalBits count) ≤ payloadBudget totalBits count := by
  have hnil : random seed totalBits count ≠ [] := by
    rw [← List.length_pos_iff, length_random]
    omega
  obtain ⟨command, hmem, hlargest⟩ := (largestPayload_isGreatest hnil).1
  obtain ⟨-, -, hsum⟩ := mem_randomCommands hrange hmem
  rwa [hlargest] at hsum

/-- The codes suffice as soon as there are fewer commands than values: either the shortest
header has more bits than the count needs, or every header fills the word. -/
theorem codeSpace_random_iff (hrange : Randomness.InRange) (hcount : 1 ≤ count)
    (layout : Layout) (source : MaskSource) :
    Stage.codeSpace.Passes totalBits (random seed totalBits count) layout source ↔
      count < 2 ^ totalBits := by
  have hlargest : largestPayload (random seed totalBits count) ≤ payloadBudget totalBits count :=
    largestPayload_random_le hrange hcount
  have hneeded := lt_two_pow_bitLength count
  simp only [Stage.Passes, length_random]
  unfold payloadBudget at hlargest
  by_cases hfits : bitLength count + 1 ≤ totalBits
  · have hshortest : Stage.shortestCount totalBits (random seed totalBits count) layout ≤ count :=
      Nat.le_trans List.countP_le_length (Nat.le_of_eq (length_random seed totalBits count))
    have hroom : 2 ^ bitLength count ≤
        2 ^ (totalBits - largestPayload (random seed totalBits count)) :=
      Nat.pow_le_pow_right (by omega) (by omega)
    have hword : 2 ^ bitLength count ≤ 2 ^ totalBits := Nat.pow_le_pow_right (by omega) (by omega)
    constructor
    · intro _
      omega
    · intro _
      omega
  · have hzero : largestPayload (random seed totalBits count) = 0 := by omega
    rw [shortestCount_of_largestPayload_eq_zero layout hzero, hzero, length_random, Nat.sub_zero]
    omega

theorem budget_random (hrange : Randomness.InRange) (layout : Layout) (source : MaskSource) :
    Stage.budget.Passes totalBits (random seed totalBits count) layout source := by
  intro command hmem
  obtain ⟨-, -, hsum⟩ := mem_randomCommands hrange hmem
  unfold payloadBudget at hsum
  omega

/-- Whatever its seed draws, a random registry compiles in either layout exactly when it has
fewer commands than the word has values, and where it does not the codes are what is missing. -/
theorem random_compiles_iff (hrange : Randomness.InRange) (hone : 1 ≤ totalBits)
    (hword : totalBits ≤ 64) (hcount : 1 ≤ count) (seed : UInt64) (layout : Layout)
    (maskSeed : UInt64) :
    ((∃ codec, Codec.build totalBits (random seed totalBits count) layout (.seed maskSeed) =
        .ok codec) ↔ count < 2 ^ totalBits) ∧
    ∀ cause,
      Codec.build totalBits (random seed totalBits count) layout (.seed maskSeed) = .error cause →
        ∃ command length, cause = .codeSpaceExhausted command length := by
  have hregistry : Stage.registry.Passes totalBits (random seed totalBits count) layout
      (.seed maskSeed) := validRegistry_random hrange hone hword hcount
  have hbudget : Stage.budget.Passes totalBits (random seed totalBits count) layout
      (.seed maskSeed) := budget_random hrange layout _
  have hspace : Stage.codeSpace.Passes totalBits (random seed totalBits count) layout
      (.seed maskSeed) ↔ count < 2 ^ totalBits := codeSpace_random_iff hrange hcount layout _
  by_cases hless : count < 2 ^ totalBits
  · have hpasses : ∀ stage : Stage, stage.Passes totalBits (random seed totalBits count) layout
        (.seed maskSeed) := by
      intro stage
      cases stage with
      | registry => exact hregistry
      | budget => exact hbudget
      | codeSpace => exact hspace.mpr hless
      | mask => exact nofun
    obtain ⟨codec, hbuild⟩ := Codec.exists_build hpasses
    rw [hbuild]
    exact ⟨⟨fun _ => hless, fun _ => ⟨codec, rfl⟩⟩, nofun⟩
  · have hfirst : Stage.codeSpace.FirstFailing totalBits (random seed totalBits count) layout
        (.seed maskSeed) := by
      refine ⟨fun hpasses => hless (hspace.mp hpasses), ?_⟩
      intro stage hbefore
      rcases List.mem_pair.mp hbefore with rfl | rfl
      · exact hregistry
      · exact hbudget
    obtain ⟨cause, hbuild, hstage⟩ := Codec.build_of_firstFailing hfirst
    rw [hbuild]
    refine ⟨⟨nofun, fun hfewer => absurd hfewer hless⟩, ?_⟩
    intro other heq
    rw [← Except.error.inj heq]
    exact ConfigurationError.stage?_eq_codeSpace_iff.mp hstage

end

/-- Seven commands find codes in a word of three bits and eight do not, in spite of the eight
values: one of them means no message. -/
theorem random_compiles_below_eight :
    (∃ codec, Codec.build 3 (random 5 3 7) .perCommand (.seed 9) = .ok codec) ∧
      ∃ command length,
        Codec.build 3 (random 5 3 8) .perCommand (.seed 9) =
          .error (.codeSpaceExhausted command length) := by
  have hseven := random_compiles_iff Generator.inRange (by decide : 1 ≤ 3) (by decide)
    (by decide : 1 ≤ 7) 5 .perCommand 9
  have height := random_compiles_iff Generator.inRange (by decide : 1 ≤ 3) (by decide)
    (by decide : 1 ≤ 8) 5 .perCommand 9
  refine ⟨hseven.1.mpr (by decide), ?_⟩
  cases hbuild : Codec.build 3 (random 5 3 8) .perCommand (.seed 9) with
  | ok codec => exact absurd (height.1.mp ⟨codec, hbuild⟩) (by decide)
  | error cause =>
    obtain ⟨command, length, rfl⟩ := height.2 cause hbuild
    exact ⟨command, length, rfl⟩

end Sample

end CommandWord
