import CommandWord.Source.Routine
import CommandWord.Codec.Fingerprint
import CommandWord.Text

/-!
The Rust source of a codec. The words are the narrowest unsigned type that holds a value; the
messages are an enumeration with one variant per command, so a reader of messages has to name
every command. Encoder and decoder are the codec's routine, line by line.
-/

namespace CommandWord.RustText

open Digits Quoted Lines

def generator : String := "flagcodec 0.1.0"

/-- The bits of the narrowest unsigned word that holds values of `totalBits` bits. -/
def wordBits (totalBits : Nat) : Nat :=
  if totalBits ≤ 8 then 8
  else if totalBits ≤ 16 then 16
  else if totalBits ≤ 32 then 32
  else 64

def wordType (totalBits : Nat) : String :=
  s!"u{wordBits totalBits}"

def summary (codec : Codec) : String :=
  s!"{codec.totalBits}-bit flag codec, {codec.entries.length} commands, " ++
    s!"{codec.layout.name} headers."

def banner (codec : Codec) : List String := [
  s!"// @generated by {generator}. Do not edit.",
  "//",
  "// " ++ summary codec,
  "// Values produced by a different build will not decode.",
  ""]

def constants (codec : Codec) : List String :=
  let word := wordType codec.totalBits
  [ "/// Width of every encoded value in bits.",
    s!"pub const TOTAL_BITS: u32 = {codec.totalBits};",
    "",
    "/// Per-build mask XORed into every value. It hides the layout from",
    "/// observers comparing values across builds; it is not encryption.",
    s!"pub const MASK: {word} = {hex codec.mask.toNat};",
    "",
    "/// Reserved value meaning \"no message\". `encode` never returns it.",
    s!"pub const NO_MESSAGE: {word} = MASK;",
    "",
    "/// Identifies the build this file was generated by.",
    s!"pub const FINGERPRINT: u32 = 0x{paddedHex 8 codec.fingerprint.toNat};",
    ""]

def headerLine (entry : Entry) : String :=
  s!"    ({quote entry.command.name}, {hex entry.header.code.toNat}, {entry.header.length}),"

def headerTable (codec : Codec) : List String :=
  let word := wordType codec.totalBits
  [ "/// `(command, header code, header length)` for every command.",
    s!"pub const HEADERS: [(&str, {word}, u32); {codec.entries.length}] = ["] ++
    codec.entries.map headerLine ++
    ["];", ""]

def variantLines (word : String) (command : Command) : List String :=
  if command.fields = [] then
    [s!"    /// `{command.name}`", s!"    {command.variant},"]
  else
    let widths := ", ".intercalate (command.fields.map toString)
    let types := ", ".intercalate (command.fields.map fun _ => word)
    [s!"    /// `{command.name}`: {widths} bits", s!"    {command.variant}({types}),"]

def messageType (codec : Codec) : List String :=
  [ "#[derive(Debug, Clone, Copy, PartialEq, Eq, Hash)]",
    "pub enum Message \x7b"] ++
    codec.registry.commands.flatMap (variantLines (wordType codec.totalBits)) ++
    ["\x7d", ""]

def errorType (word : String) : List String := [
  "/// Errors returned by `encode` and `decode`.",
  "#[derive(Debug, Clone, Copy, PartialEq, Eq)]",
  "pub enum CodecError \x7b",
  "    /// A field value does not fit its declared width.",
  s!"    FieldRange \x7b field: usize, value: {word}, width: u32 \x7d,",
  "    /// The value matches no header of this build.",
  s!"    DecodeMismatch({word}),",
  "\x7d",
  "",
  "impl core::fmt::Display for CodecError \x7b",
  "    fn fmt(&self, f: &mut core::fmt::Formatter<'_>) -> core::fmt::Result \x7b",
  "        match self \x7b",
  "            CodecError::FieldRange \x7b field, value, width \x7d => \x7b",
  "                write!(f, \"field \x7bfield\x7d: value \x7bvalue\x7d " ++
    "does not fit in \x7bwidth\x7d bits\")",
  "            \x7d",
  "            CodecError::DecodeMismatch(value) => " ++
    "write!(f, \"value \x7bvalue:#x\x7d matches no header\"),",
  "        \x7d",
  "    \x7d",
  "\x7d",
  "",
  "impl std::error::Error for CodecError \x7b\x7d",
  ""]

def checkFunction (word : String) : List String := [
  "#[inline]",
  s!"fn check(field: usize, value: {word}, width: u32) -> Result<(), CodecError> \x7b",
  s!"    if width < {word}::BITS && value >> width != 0 \x7b",
  "        return Err(CodecError::FieldRange \x7b field, value, width \x7d);",
  "    \x7d",
  "    Ok(())",
  "\x7d",
  ""]

def term : Term → String
  | .field index shift => s!"(f{index} << {shift})"
  | .literal value => hex value.toNat

def encodeArm (arm : EncodeArm) : List String :=
  let raw := " | ".intercalate (arm.terms.map term)
  if arm.checks = [] then
    [s!"        Message::{arm.kind} => {raw},"]
  else
    let bindings := ", ".intercalate (arm.checks.map fun (index, _) => s!"f{index}")
    [s!"        Message::{arm.kind}({bindings}) => \x7b"] ++
      arm.checks.map (fun (index, width) => s!"            check({index}, f{index}, {width})?;") ++
      [s!"            {raw}", "        \x7d"]

def encodeFunction (routine : Routine) : List String :=
  let word := wordType routine.totalBits
  [ "/// Encode a message into a flag value.",
    s!"pub fn encode(message: &Message) -> Result<{word}, CodecError> \x7b",
    s!"    let raw: {word} = match *message \x7b"] ++
    routine.encoder.flatMap encodeArm ++
    [ "    \x7d;",
      "    Ok((raw + 1) ^ MASK)",
      "\x7d",
      ""]

def extract : Extract → String
  | .zero => "0"
  | .bits shift mask => s!"(x >> {shift}) & {hex mask.toNat}"

def padding : Option Nat → List String
  | none => []
  | some used => [
      s!"        if x >> {used} != 0 \x7b",
      "            return Err(CodecError::DecodeMismatch(value));",
      "        \x7d"]

def fields (fields : List Extract) : String :=
  if fields = [] then "" else "(" ++ ", ".intercalate (fields.map extract) ++ ")"

def decodeArm (arm : DecodeArm) : List String :=
  [s!"    if (x & {hex arm.headerMask.toNat}) == {hex arm.code.toNat} \x7b"] ++
    padding arm.padding ++
    [s!"        return Ok(Message::{arm.kind}{fields arm.fields});", "    \x7d"]

def decodeClass (headers : DecodeClass) : List String :=
  s!"    // {headers.headerLength}-bit headers" :: headers.arms.flatMap decodeArm

/-- The decoder's first lines. Only values narrower than their word are held against the word's
upper bits. -/
def rawValue (totalBits : Nat) : List String :=
  if totalBits < wordBits totalBits then [
    "    if value >> TOTAL_BITS != 0 \x7b",
    "        return Err(CodecError::DecodeMismatch(value));",
    "    \x7d",
    s!"    let x = (value ^ MASK).wrapping_sub(1) & {hex (lowMask totalBits).toNat};"]
  else
    ["    let x = (value ^ MASK).wrapping_sub(1);"]

def decodeFunction (routine : Routine) : List String :=
  [ "/// Decode a flag value. Callers filter out `NO_MESSAGE` first.",
    s!"pub fn decode(value: {wordType routine.totalBits}) -> Result<Message, CodecError> \x7b"] ++
    rawValue routine.totalBits ++
    routine.decoder.flatMap decodeClass ++
    ["    Err(CodecError::DecodeMismatch(value))", "\x7d"]

def source (codec : Codec) : String :=
  let word := wordType codec.totalBits
  let routine := Routine.ofCodec codec Command.variant
  -- without fields there is no call of the check
  let check := if codec.registry.commands.any (·.fields ≠ []) then checkFunction word else []
  unlines <| banner codec ++ constants codec ++ headerTable codec ++ messageType codec ++
    errorType word ++ check ++ encodeFunction routine ++ decodeFunction routine

end CommandWord.RustText
