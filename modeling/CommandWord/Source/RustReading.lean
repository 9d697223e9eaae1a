import CommandWord.Source.Routine
import CommandWord.Source.Scanner

/-!
Reading a Rust source as the program that it spells. What stands the same in every source is read
word for word; kinds, numbers, terms and tests are read as they come. Remarks and what is only
said for people are passed over. A program is read only if its parts belong together: every kind
of message is declared with as many words as it is encoded from and decoded to, and a check that
is called is there.
-/

namespace CommandWord.RustReading

open Scanner

/-! ### Declarations -/

def constants : Scanner (Nat × Nat × UInt64) := do
  remarks
  literally "pub const TOTAL_BITS: u32 = "
  let totalBits ← decimal
  literally ";"
  lineBreak
  remarks
  literally "pub const MASK: "
  literally "u"
  let size ← decimal
  let word := s!"u{size}"
  literally " = "
  let mask ← hexadecimal ""
  literally ";"
  lineBreak
  remarks
  lines [s!"pub const NO_MESSAGE: {word} = MASK;"]
  remarks
  literally "pub const FINGERPRINT: u32 = 0x"
  let _ ← numeral 16
  literally ";"
  lines ["", ""]
  return (size, totalBits, mask)

def headerTable (word : String) : Scanner Unit := do
  remarks
  literally "pub const HEADERS: [(&str, "
  literally word
  literally ", u32); "
  let _ ← decimal
  literally "] = ["
  lineBreak
  skipping (lineOpening "    (")
  lines ["];", ""]

def variant (word : String) : Scanner (String × Nat) := do
  remarks
  literally "    "
  let kind ← name
  (do literally ","
      lineBreak
      return (kind, 0)) <|>
  (do literally "("
      let types ← separated ", " (literally word)
      literally "),"
      lineBreak
      return (kind, types.length))

def messageType (word : String) : Scanner (List (String × Nat)) := do
  remarks
  lines ["#[derive(Debug, Clone, Copy, PartialEq, Eq, Hash)]", "pub enum Message \x7b"]
  let variants ← many (variant word)
  lines ["\x7d", ""]
  return variants

def errorType (word : String) : Scanner Unit := do
  remarks
  lines ["#[derive(Debug, Clone, Copy, PartialEq, Eq)]", "pub enum CodecError \x7b"]
  remarks
  lines [s!"    FieldRange \x7b field: usize, value: {word}, width: u32 \x7d,"]
  remarks
  lines [s!"    DecodeMismatch({word}),", "\x7d"]
  remarks
  lines [
    "impl core::fmt::Display for CodecError \x7b",
    "    fn fmt(&self, f: &mut core::fmt::Formatter<'_>) -> core::fmt::Result \x7b",
    "        match self \x7b",
    "            CodecError::FieldRange \x7b field, value, width \x7d => \x7b",
    "                write!(f, \"field \x7bfield\x7d: value \x7bvalue\x7d " ++
      "does not fit in \x7bwidth\x7d bits\")",
    "            \x7d",
    "            CodecError::DecodeMismatch(value) => " ++
      "write!(f, \"value \x7bvalue:#x\x7d matches no header\"),",
    "        \x7d",
    "    \x7d",
    "\x7d"]
  remarks
  lines ["impl std::error::Error for CodecError \x7b\x7d", ""]

/-! ### Encoding -/

def checkFunction (word : String) : Scanner Unit := lines [
  "#[inline]",
  s!"fn check(field: usize, value: {word}, width: u32) -> Result<(), CodecError> \x7b",
  s!"    if width < {word}::BITS && value >> width != 0 \x7b",
  "        return Err(CodecError::FieldRange \x7b field, value, width \x7d);",
  "    \x7d",
  "    Ok(())",
  "\x7d",
  ""]

def hasCheck (word : String) : Scanner Bool :=
  (do checkFunction word; return true) <|> return false

def term : Scanner Term :=
  (do literally "(f"
      let index ← decimal
      literally " << "
      let shift ← decimal
      literally ")"
      return .field index shift) <|>
  (do return .literal (← hexadecimal ""))

def terms : Scanner (List Term) := separated " | " term

def check : Scanner (Nat × Nat) := do
  literally "            check("
  let field ← decimal
  literally ", f"
  let index ← decimal
  literally ", "
  let width ← decimal
  literally ")?;"
  lineBreak
  if field = index then return (index, width) else failure

/-- One arm of the match. Its pattern has a name for every word of the message, in order. -/
def encodeArm : Scanner EncodeArm := do
  literally "        Message::"
  let kind ← name
  (do literally " => "
      let terms ← terms
      literally ","
      lineBreak
      return ⟨kind, [], terms⟩) <|>
  (do literally "("
      let bound ← separated ", " (do literally "f"; decimal)
      literally ") => \x7b"
      lineBreak
      let checks ← many check
      literally "            "
      let terms ← terms
      lineBreak
      lines ["        \x7d"]
      if bound = List.range checks.length then return ⟨kind, checks, terms⟩ else failure)

def encodeFunction (word : String) : Scanner (List EncodeArm) := do
  remarks
  lines [
    s!"pub fn encode(message: &Message) -> Result<{word}, CodecError> \x7b",
    s!"    let raw: {word} = match *message \x7b"]
  let arms ← many encodeArm
  lines ["    \x7d;", "    Ok((raw + 1) ^ MASK)", "\x7d", ""]
  return arms

/-! ### Decoding -/

def cut : Scanner (Option UInt64) :=
  (do lines [
        "    if value >> TOTAL_BITS != 0 \x7b",
        "        return Err(CodecError::DecodeMismatch(value));",
        "    \x7d"]
      literally "    let x = (value ^ MASK).wrapping_sub(1) & "
      let mask ← hexadecimal ""
      literally ";"
      lineBreak
      return some mask) <|>
  (do lines ["    let x = (value ^ MASK).wrapping_sub(1);"]
      return none)

def padding : Scanner (Option Nat) :=
  (do literally "        if x >> "
      let used ← decimal
      lines [
        " != 0 \x7b",
        "            return Err(CodecError::DecodeMismatch(value));",
        "        \x7d"]
      return some used) <|>
  return none

def extract : Scanner Extract :=
  (do literally "(x >> "
      let shift ← decimal
      literally ") & "
      let mask ← hexadecimal ""
      return .bits shift mask) <|>
  (do literally "0"
      return .zero)

def fields : Scanner (List Extract) :=
  (do literally "("
      let fields ← separated ", " extract
      literally ")"
      return fields) <|>
  return []

def decodeArm : Scanner DecodeArm := do
  literally "    if (x & "
  let headerMask ← hexadecimal ""
  literally ") == "
  let code ← hexadecimal ""
  literally " \x7b"
  lineBreak
  let padding ← padding
  literally "        return Ok(Message::"
  let kind ← name
  let fields ← fields
  lines [");", "    \x7d"]
  return ⟨kind, headerMask, code, padding, fields⟩

def decodeFunction (word : String) : Scanner (Option UInt64 × List DecodeArm) := do
  remarks
  lines [s!"pub fn decode(value: {word}) -> Result<Message, CodecError> \x7b"]
  let cut ← cut
  let classes ← many (group decodeArm)
  lines ["    Err(CodecError::DecodeMismatch(value))", "\x7d"]
  return (cut, classes.flatten)

/-! ### Sources -/

/-- Every kind of message is declared with the words that it is encoded from and decoded to. -/
def IsTyped (variants : List (String × Nat)) (encoder : List EncodeArm)
    (decoder : List DecodeArm) : Prop :=
  encoder.map (fun arm => (arm.kind, arm.checks.length)) = variants ∧
    ∀ arm ∈ decoder, (arm.kind, arm.fields.length) ∈ variants

instance (variants : List (String × Nat)) (encoder : List EncodeArm) (decoder : List DecodeArm) :
    Decidable (IsTyped variants encoder decoder) :=
  inferInstanceAs (Decidable (_ ∧ _))

def program : Scanner (Nat × Program) := do
  let (size, totalBits, mask) ← constants
  let word := s!"u{size}"
  headerTable word
  let variants ← messageType word
  errorType word
  let checked ← hasCheck word
  let encoder ← encodeFunction word
  let (cut, decoder) ← decodeFunction word
  if size ∈ [8, 16, 32, 64] ∧ IsTyped variants encoder decoder ∧
      (checked ∨ ∀ arm ∈ encoder, arm.checks = []) then
    return (size, ⟨totalBits, mask, encoder, cut, decoder⟩)
  else failure

def program? (source : String) : Option (Nat × Program) := readAll program source

end CommandWord.RustReading
