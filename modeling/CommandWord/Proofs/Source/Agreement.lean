import CommandWord.Proofs.Source.Decoding
import CommandWord.Proofs.Source.Encoding

/-!
When a source and its codec agree. The source gives the same numbers in its own words, and
where the codec reports an error, the source halts for the same reason. A fault of the
arithmetic agrees with no answer of a codec.
-/

namespace CommandWord

/-- How a language reads its words as numbers: below a power of two as the number that the bits
spell, and above it as negative. -/
structure WordReading {size : Nat} (number : BitVec size → Int) (bits : Nat) : Prop where
  of_lt : ∀ {word : BitVec size}, word.toNat < 2 ^ bits → number word = word.toNat
  of_le : ∀ {word : BitVec size}, 2 ^ bits ≤ word.toNat → number word < 0

/-- The number of an unsigned word. -/
def unsignedNumber {size : Nat} (word : BitVec size) : Int := word.toNat

theorem unsigned_reading (size : Nat) : WordReading (@unsignedNumber size) size where
  of_lt _ := rfl
  of_le {word} hword := absurd word.isLt (Nat.not_lt.mpr hword)

theorem signed_reading (size : Nat) : WordReading (@BitVec.toInt size) (size - 1) where
  of_lt := WordArithmetic.toInt_of_lt
  of_le {word} hword := by
    apply BitVec.toInt_neg_of_msb_true
    rwa [BitVec.msb_eq_decide, decide_eq_true_iff]

/-- The words of a target are the numbers of a message, one by one. -/
def SameNumbers {size : Nat} (number : BitVec size → Int) (words : List (BitVec size))
    (fields : List UInt64) : Prop :=
  List.Forall₂ (fun word field => number word = field.toNat) words fields

/-- The answers of a codec and of a source to a message. Both name the first field that is out
of range. -/
inductive SameValue {size : Nat} (number : BitVec size → Int) :
    Except Error UInt64 → Except Halt (BitVec size) → Prop where
  | value {value : UInt64} {coded : BitVec size} (hsame : number coded = value.toNat) :
      SameValue number (.ok value) (.ok coded)
  | wrongArity {name : String} {expected given : Nat} :
      SameValue number (.error (.field (.wrongArity name expected given))) (.error .wrongArity)
  | outOfRange {name : String} {field width : Nat} {value : UInt64} :
      SameValue number (.error (.field (.outOfRange name field value width)))
        (.error (.fieldRange field))

/-- The answers of a codec and of a source to a value. -/
inductive SameMessage {size : Nat} (codec : Codec) (kind : Command → String)
    (number : BitVec size → Int) :
    Except Error Message → Except Halt (WordMessage size) → Prop where
  | message {id : Nat} {command : Command} {fields : List UInt64} {words : List (BitVec size)}
      (hcommand : codec.registry.commands[id]? = some command)
      (hsame : SameNumbers number words fields) :
      SameMessage codec kind number (.ok ⟨id, fields⟩) (.ok ⟨kind command, words⟩)
  | mismatch {value : UInt64} :
      SameMessage codec kind number (.error (.decodeMismatch value)) (.error .mismatch)

theorem SameValue.exists_coded {size : Nat} {number : BitVec size → Int} {value : UInt64}
    {answer : Except Halt (BitVec size)} (hsame : SameValue number (.ok value) answer) :
    ∃ coded, answer = .ok coded ∧ number coded = value.toNat := by
  cases hsame with
  | value hnumber => exact ⟨_, rfl, hnumber⟩

namespace WordReading

variable {size bits : Nat} {number : BitVec size → Int}

theorem toNat_eq (hreading : WordReading number bits) {word : BitVec size} {field : Nat}
    (hsame : number word = field) : word.toNat = field := by
  by_cases hlt : word.toNat < 2 ^ bits
  · have hnumber := hreading.of_lt hlt
    omega
  · have hnegative := hreading.of_le (Nat.le_of_not_lt hlt)
    omega

theorem map_unsignedWord (hreading : WordReading number bits) {words : List (BitVec size)}
    {fields : List UInt64} (hsame : SameNumbers number words fields) :
    words.map unsignedWord = fields := by
  induction hsame with
  | nil => rfl
  | @cons word field words fields hword _ ih =>
    rw [List.map_cons, ih, unsignedWord, hreading.toNat_eq hword, UInt64.ofNat_toNat]

theorem sameNumbers (hreading : WordReading number bits) (hsize : size ≤ 64)
    {words : List (BitVec size)} (hwords : ∀ word ∈ words, word.toNat < 2 ^ bits) :
    SameNumbers number words (words.map unsignedWord) := by
  rw [SameNumbers, List.forall₂_map_right_iff, List.forall₂_same]
  intro word hmem
  rw [hreading.of_lt (hwords word hmem), toNat_unsignedWord hsize]

end WordReading

namespace WordTarget.Suits

variable {size bits : Nat} {target : WordTarget size} {number : BitVec size → Int} {codec : Codec}
  {id : Nat} {command : Command} {values : List (BitVec size)}

/-- Words that fill the fields of a command are in the range of the target. -/
theorem lt_of_fill (hsuits : target.Suits codec bits)
    (hcommand : codec.registry.commands[id]? = some command)
    (hfill : Fill command.fields (values.map unsignedWord)) :
    ∀ value ∈ values, value.toNat < 2 ^ bits := by
  obtain ⟨header, hentry⟩ := Codec.exists_entry hcommand
  intro value hmem
  obtain ⟨width, hwidth, hlt⟩ := hfill.exists_width (List.mem_map_of_mem hmem)
  have hle := hsuits.width_le (List.mem_of_getElem? hentry) width hwidth
  rw [toNat_unsignedWord hsuits.size_le] at hlt
  exact Nat.lt_of_lt_of_le hlt (Nat.pow_le_pow_right (by omega) hle)

theorem encode_agrees (hsuits : target.Suits codec bits) (hreading : WordReading number bits)
    (hcommand : codec.registry.commands[id]? = some command) {fields : List UInt64}
    (hsame : SameNumbers number values fields) :
    SameValue number (codec.encode ⟨id, fields⟩)
      (target.encode (target.program codec) ⟨target.kind command, values⟩) := by
  rw [← hreading.map_unsignedWord hsame]
  rcases hsuits.encode_cases hcommand values with
    ⟨value, coded, hvalue, hcoded, hnumber⟩ | ⟨-, hvalue, hcoded⟩ |
    ⟨field, width, value, hvalue, hcoded⟩
  · have hfits := fits_iff_lt.mp (Codec.encode_eq_ok_iff.mp hvalue).fits
    have hlt : coded.toNat < 2 ^ bits := hsuits.lt_of_lt (by omega)
    rw [hvalue, hcoded]
    exact .value (by rw [hreading.of_lt hlt, hnumber])
  · rw [hvalue, hcoded]
    exact .wrongArity
  · rw [hvalue, hcoded]
    exact .outOfRange

/-- A negative value stops the encoder, at the latest by the check of its own field. -/
theorem encode_of_negative (hsuits : target.Suits codec bits) (hreading : WordReading number bits)
    (hcommand : codec.registry.commands[id]? = some command) {value : BitVec size}
    (hmem : value ∈ values) (hnegative : number value < 0) :
    target.encode (target.program codec) ⟨target.kind command, values⟩ = .error .wrongArity ∨
      ∃ field, target.encode (target.program codec) ⟨target.kind command, values⟩ =
        .error (.fieldRange field) := by
  rcases hsuits.encode_cases hcommand values with
    ⟨coded, -, hcoded, -⟩ | ⟨-, -, hcoded⟩ | ⟨field, -, -, -, hcoded⟩
  · have hfill := (Codec.encode_eq_ok_iff.mp hcoded).fill hcommand
    have hnumber := hreading.of_lt (hsuits.lt_of_fill hcommand hfill value hmem)
    omega
  · exact Or.inl hcoded
  · exact Or.inr ⟨field, hcoded⟩

/-- A negative value has bits above the word, so the decoder makes no test. -/
theorem decode_of_negative (hsuits : target.Suits codec bits) (hreading : WordReading number bits)
    {value : BitVec size} (hnegative : number value < 0) :
    target.decode (target.program codec) value = .error .mismatch := by
  have hfits : ¬ Fits (unsignedWord value) codec.totalBits := by
    intro hfits
    have hnumber := hreading.of_lt (hsuits.lt_of_fits hfits).2
    omega
  rw [decode, hsuits.rawValue_of_not_fits hfits]
  rfl

theorem decode_agrees (hsuits : target.Suits codec bits) (hreading : WordReading number bits)
    (value : BitVec size) :
    SameMessage codec target.kind number (codec.decode (unsignedWord value))
      (target.decode (target.program codec) value) := by
  rcases hsuits.decode_cases value with
    ⟨id, command, words, hmessage, hcommand, hdecoded⟩ | ⟨hmessage, hdecoded⟩
  · have hfill := (Codec.decode_eq_ok_iff.mp hmessage).fill hcommand
    have hsame := hreading.sameNumbers hsuits.size_le (hsuits.lt_of_fill hcommand hfill)
    rw [hmessage, hdecoded]
    exact .message hcommand hsame
  · rw [hmessage, hdecoded]
    exact .mismatch

end WordTarget.Suits

end CommandWord
