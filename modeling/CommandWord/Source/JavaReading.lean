import CommandWord.Source.JavaText
import CommandWord.Source.Scanner

/-!
Reading a Java source as the program that it spells. The type of the mask tells the words, and
from there on every word and every literal has to be of this type. What stands the same in every
source is read word for word, the functions that hold values against their widths among it. A
program is read only if the encoder has a case for every label, in order, and the decoder
answers with labels.
-/

namespace CommandWord.JavaReading

open Scanner
open JavaText (SignedWord)

def signedWord : Scanner SignedWord :=
  (do literally "int"
      return ⟨"int", 32, ""⟩) <|>
  (do literally "long"
      return ⟨"long", 64, "L"⟩)

/-! ### Declarations -/

def package : Scanner Unit :=
  (do literally "package "
      let _ ← span (· != ';')
      literally ";"
      lineBreak) <|>
  return ()

/-- The remarks on the class and the line that opens it. Without a slash among them, the summary
cannot end the remarks. -/
def opening : Scanner Unit := do
  lines ["/**"]
  literally " * "
  let _ ← span fun c => c != '\n' && c != '/'
  lineBreak
  lines [" * Values produced by a different build will not decode.", " */"]
  literally "public final class "
  let _ ← span (· != ' ')
  literally " \x7b"
  lineBreak

def banner : Scanner Unit := do
  remarks
  package
  remarks
  opening

def constants : Scanner (Nat × SignedWord × UInt64) := do
  literally "    public static final int TOTAL_BITS = "
  let totalBits ← decimal
  literally ";"
  lineBreak
  lines ["    /** Per-build mask. Hides the layout across builds; not encryption. */"]
  literally "    public static final "
  let word ← signedWord
  literally " MASK = "
  let mask ← hexadecimal word.suffix
  literally ";"
  lineBreak
  lines [
    "    /** Reserved \"no message\" value; encode never returns it. */",
    s!"    public static final {word.type} NO_MESSAGE = MASK;"]
  literally "    public static final int FINGERPRINT = 0x"
  let _ ← numeral 16
  literally ";"
  lines ["", ""]
  return (totalBits, word, mask)

def types (word : SignedWord) : Scanner (List String) := do
  lines ["    public enum Label \x7b"]
  literally "        "
  let labels ← separated ", " name
  lineBreak
  lines [
    "    \x7d",
    "",
    "    public static final class Message \x7b",
    "        public final Label label;",
    s!"        public final {word.type}[] data;",
    "",
    s!"        public Message(Label label, {word.type}... data) \x7b",
    "            this.label = label;",
    "            this.data = data;",
    "        \x7d",
    "    \x7d",
    ""]
  return labels

/-! ### Encoding -/

def term (word : SignedWord) : Scanner Term :=
  (do literally "(data["
      let index ← decimal
      literally "] << "
      let shift ← decimal
      literally ")"
      return .field index shift) <|>
  (do return .literal (← hexadecimal word.suffix))

def check : Scanner (Nat × Nat) := do
  literally "                field(data, "
  let index ← decimal
  literally ", "
  let width ← decimal
  literally ");"
  lineBreak
  return (index, width)

def encodeArm (word : SignedWord) : Scanner EncodeArm := do
  literally "            case "
  let kind ← name
  literally ": \x7b"
  lineBreak
  literally "                arity(data, "
  let arity ← decimal
  literally ");"
  lineBreak
  let checks ← many check
  literally "                return MASK ^ (1 + ("
  let terms ← separated " | " (term word)
  literally "));"
  lineBreak
  lines ["            \x7d"]
  if arity = checks.length then return ⟨kind, checks, terms⟩ else failure

def encodeFunction (word : SignedWord) : Scanner (List EncodeArm) := do
  lines [
    s!"    public static {word.type} encode(Message message) \x7b",
    s!"        {word.type}[] data = message.data;",
    "        switch (message.label) \x7b"]
  let arms ← many (encodeArm word)
  lines [
    "        \x7d",
    "        throw new IllegalArgumentException(\"unknown label \" + message.label);",
    "    \x7d",
    ""]
  return arms

/-! ### Decoding -/

def padding : Scanner (Option Nat) :=
  (do literally "            if ((x >>> "
      let used ← decimal
      lines [
        ") != 0) \x7b",
        "                throw mismatch(flag);",
        "            \x7d"]
      return some used) <|>
  return none

def extract (word : SignedWord) : Scanner Extract :=
  (do literally "(x >>> "
      let shift ← decimal
      literally ") & "
      let mask ← hexadecimal word.suffix
      return .bits shift mask) <|>
  (do let value ← hexadecimal word.suffix
      if value = 0 then return .zero else failure)

def decodeArm (word : SignedWord) : Scanner DecodeArm := do
  literally "        if ((x & "
  let headerMask ← hexadecimal word.suffix
  literally ") == "
  let code ← hexadecimal word.suffix
  literally ") \x7b"
  lineBreak
  let padding ← padding
  literally "            return new Message("
  literally "Label."
  let kind ← name
  let fields ← many (do literally ", "; extract word)
  lines [");", "        \x7d"]
  return ⟨kind, headerMask, code, padding, fields⟩

def decodeFunction (word : SignedWord) : Scanner (UInt64 × List DecodeArm) := do
  lines [
    s!"    public static Message decode({word.type} flag) \x7b",
    "        if ((flag >>> TOTAL_BITS) != 0) \x7b",
    "            throw mismatch(flag);",
    "        \x7d"]
  literally "        "
  literally word.type
  literally " x = ((flag ^ MASK) - 1) & "
  let cut ← hexadecimal word.suffix
  literally ";"
  lineBreak
  let classes ← many (group (decodeArm word))
  lines [
    "        throw mismatch(flag);",
    "    \x7d",
    ""]
  return (cut, classes.flatten)

def checkFunctions (word : SignedWord) : Scanner Unit := lines [
  s!"    private static void arity({word.type}[] data, int expected) \x7b",
  "        if (data.length != expected) \x7b",
  "            throw new IllegalArgumentException(\"expected \" + expected + " ++
    "\" fields, got \" + data.length);",
  "        \x7d",
  "    \x7d",
  "",
  s!"    private static void field({word.type}[] data, int index, int width) \x7b",
  s!"        {word.type} value = data[index];",
  s!"        if (value < 0 || (width < {word.bits} && (value >>> width) != 0)) \x7b",
  "            throw new IllegalArgumentException(\"field \" + index + \": value \" + value + " ++
    "\" does not fit in \" + width + \" bits\");",
  "        \x7d",
  "    \x7d",
  "",
  s!"    private static IllegalArgumentException mismatch({word.type} flag) \x7b",
  "        return new IllegalArgumentException(\"flag \" + flag + \" matches no header\");",
  "    \x7d",
  "\x7d"]

/-! ### Sources -/

/-- Every label has its case, and all that is decoded has a label. -/
def IsLabelled (labels : List String) (encoder : List EncodeArm) (decoder : List DecodeArm) :
    Prop :=
  encoder.map EncodeArm.kind = labels ∧ ∀ arm ∈ decoder, arm.kind ∈ labels

instance (labels : List String) (encoder : List EncodeArm) (decoder : List DecodeArm) :
    Decidable (IsLabelled labels encoder decoder) :=
  inferInstanceAs (Decidable (_ ∧ _))

def program : Scanner (Nat × Program) := do
  banner
  let (totalBits, word, mask) ← constants
  let labels ← types word
  let encoder ← encodeFunction word
  let (cut, decoder) ← decodeFunction word
  checkFunctions word
  if IsLabelled labels encoder decoder then
    return (word.bits, ⟨totalBits, mask, encoder, some cut, decoder⟩)
  else failure

def program? (source : String) : Option (Nat × Program) := readAll program source

end CommandWord.JavaReading
