import CommandWord.Source.RustText

/-!
The Java source of a codec: one final class with the labels of the commands, a message type, and
the codec's routine in signed words. There is no signed word for 64-bit values.
-/

namespace CommandWord.JavaText

open Digits Lines

structure SignedWord where
  type : String
  bits : Nat
  suffix : String
  deriving DecidableEq

namespace SignedWord

/-- The narrowest signed word in which values of `totalBits` bits are not negative. -/
def ofTotalBits? (totalBits : Nat) : Option SignedWord :=
  if totalBits ≤ 31 then some ⟨"int", 32, ""⟩
  else if totalBits ≤ 63 then some ⟨"long", 64, "L"⟩
  else none

def literal (word : SignedWord) (value : UInt64) : String :=
  hex value.toNat ++ word.suffix

end SignedWord

def opening (codec : Codec) (className : String) : List String := [
  "/**",
  " * " ++ RustText.summary codec,
  " * Values produced by a different build will not decode.",
  " */",
  s!"public final class {className} \x7b"]

def banner (codec : Codec) (package className : String) : List String :=
  [s!"// @generated by {RustText.generator}. Do not edit."] ++
    (if package = "" then [] else [s!"package {package};"]) ++
    [""] ++ opening codec className

def constants (codec : Codec) (word : SignedWord) : List String := [
  s!"    public static final int TOTAL_BITS = {codec.totalBits};",
  "    /** Per-build mask. Hides the layout across builds; not encryption. */",
  s!"    public static final {word.type} MASK = {word.literal codec.mask};",
  "    /** Reserved \"no message\" value; encode never returns it. */",
  s!"    public static final {word.type} NO_MESSAGE = MASK;",
  s!"    public static final int FINGERPRINT = 0x{paddedHex 8 codec.fingerprint.toNat};",
  ""]

def types (codec : Codec) (word : SignedWord) : List String := [
  "    public enum Label \x7b",
  "        " ++ ", ".intercalate (codec.registry.commands.map Command.name),
  "    \x7d",
  "",
  "    public static final class Message \x7b",
  "        public final Label label;",
  s!"        public final {word.type}[] data;",
  "",
  s!"        public Message(Label label, {word.type}... data) \x7b",
  "            this.label = label;",
  "            this.data = data;",
  "        \x7d",
  "    \x7d",
  ""]

def term (word : SignedWord) : Term → String
  | .field index shift => s!"(data[{index}] << {shift})"
  | .literal value => word.literal value

def encodeArm (word : SignedWord) (arm : EncodeArm) : List String :=
  let raw := " | ".intercalate (arm.terms.map (term word))
  [ s!"            case {arm.kind}: \x7b",
    s!"                arity(data, {arm.checks.length});"] ++
    arm.checks.map (fun (index, width) => s!"                field(data, {index}, {width});") ++
    [s!"                return MASK ^ (1 + ({raw}));", "            \x7d"]

def encodeFunction (routine : Routine) (word : SignedWord) : List String :=
  [ s!"    public static {word.type} encode(Message message) \x7b",
    s!"        {word.type}[] data = message.data;",
    "        switch (message.label) \x7b"] ++
    routine.encoder.flatMap (encodeArm word) ++
    [ "        \x7d",
      "        throw new IllegalArgumentException(\"unknown label \" + message.label);",
      "    \x7d",
      ""]

def extract (word : SignedWord) : Extract → String
  | .zero => word.literal 0
  | .bits shift mask => s!"(x >>> {shift}) & {word.literal mask}"

def padding : Option Nat → List String
  | none => []
  | some used => [
      s!"            if ((x >>> {used}) != 0) \x7b",
      "                throw mismatch(flag);",
      "            \x7d"]

def decodeArm (word : SignedWord) (arm : DecodeArm) : List String :=
  let arguments := ", ".intercalate
    (s!"Label.{arm.kind}" :: arm.fields.map (extract word))
  [s!"        if ((x & {word.literal arm.headerMask}) == {word.literal arm.code}) \x7b"] ++
    padding arm.padding ++
    [s!"            return new Message({arguments});", "        \x7d"]

def decodeClass (word : SignedWord) (headers : DecodeClass) : List String :=
  s!"        // {headers.headerLength}-bit headers" :: headers.arms.flatMap (decodeArm word)

def decodeFunction (routine : Routine) (word : SignedWord) : List String :=
  [ s!"    public static Message decode({word.type} flag) \x7b",
    "        if ((flag >>> TOTAL_BITS) != 0) \x7b",
    "            throw mismatch(flag);",
    "        \x7d",
    s!"        {word.type} x = ((flag ^ MASK) - 1) & " ++
      s!"{word.literal (lowMask routine.totalBits)};"] ++
    routine.decoder.flatMap (decodeClass word) ++
    [ "        throw mismatch(flag);",
      "    \x7d",
      ""]

def checkFunctions (word : SignedWord) : List String := [
  s!"    private static void arity({word.type}[] data, int expected) \x7b",
  "        if (data.length != expected) \x7b",
  "            throw new IllegalArgumentException(\"expected \" + expected + " ++
    "\" fields, got \" + data.length);",
  "        \x7d",
  "    \x7d",
  "",
  s!"    private static void field({word.type}[] data, int index, int width) \x7b",
  s!"        {word.type} value = data[index];",
  s!"        if (value < 0 || (width < {word.bits} && (value >>> width) != 0)) \x7b",
  "            throw new IllegalArgumentException(\"field \" + index + \": value \" + value + " ++
    "\" does not fit in \" + width + \" bits\");",
  "        \x7d",
  "    \x7d",
  "",
  s!"    private static IllegalArgumentException mismatch({word.type} flag) \x7b",
  "        return new IllegalArgumentException(\"flag \" + flag + \" matches no header\");",
  "    \x7d",
  "\x7d"]

end CommandWord.JavaText
