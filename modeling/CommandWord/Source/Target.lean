import CommandWord.Source.JavaText

/-!
The languages a codec can be written out in. Every source is self-contained; what it is depends
on nothing but the codec and the target. A Java source needs a signed word for the values, and
names for what it declares: identifiers of the language that are none of its reserved words.
-/

namespace CommandWord

namespace JavaText

def reservedWords : List String := [
  "abstract", "assert", "boolean", "break", "byte", "case", "catch", "char", "class", "const",
  "continue", "default", "do", "double", "else", "enum", "extends", "false", "final",
  "finally", "float", "for", "goto", "if", "implements", "import", "instanceof", "int",
  "interface", "long", "native", "new", "null", "package", "private", "protected", "public",
  "return", "short", "static", "strictfp", "super", "switch", "synchronized", "this", "throw",
  "throws", "transient", "true", "try", "void", "volatile", "while", "_"]

/-- A word of ASCII letters, digits, underscores and dollar signs that does not begin with a
digit and is not reserved. -/
def IsJavaIdentifier (name : String) : Prop :=
  IsSpelled (fun c => c.isAlpha || c == '_' || c == '$')
      (fun c => c.isAlphanum || c == '_' || c == '$') name ∧
    name ∉ reservedWords

instance (name : String) : Decidable (IsJavaIdentifier name) :=
  inferInstanceAs (Decidable (_ ∧ _))

def IsPackage (name : String) : Prop :=
  name = "" ∨ ∀ part ∈ name.toList.splitOn '.', IsJavaIdentifier (String.ofList part)

instance (name : String) : Decidable (IsPackage name) :=
  inferInstanceAs (Decidable (_ ∨ _))

/-- What stands in the way of a source with these names, the first of it in the order class,
package, commands. -/
def nameFault (codec : Codec) (package className : String) : Option ConfigurationError :=
  if ¬ IsJavaIdentifier className then some (.invalidName className)
  else if ¬ IsPackage package then some (.invalidName package)
  else (codec.registry.commands.find? fun command => ¬ IsJavaIdentifier command.name).map
    (.invalidName ·.name)

def source (codec : Codec) (package className : String) : Except ConfigurationError String :=
  match SignedWord.ofTotalBits? codec.totalBits with
  | none => .error (.unsupportedTarget "java" codec.totalBits)
  | some word =>
      match nameFault codec package className with
      | some cause => .error cause
      | none =>
          let routine := Routine.ofCodec codec Command.name
          .ok <| Lines.unlines <| banner codec package className ++ constants codec word ++
            types codec word ++ encodeFunction routine word ++ decodeFunction routine word ++
            checkFunctions word

end JavaText

inductive Target where
  | rust
  | java (package className : String)
  deriving DecidableEq

namespace Target

def name : Target → String
  | rust => "rust"
  | java _ _ => "java"

end Target

namespace Codec

def emit (codec : Codec) : Target → Except ConfigurationError String
  | .rust => .ok (RustText.source codec)
  | .java package className => JavaText.source codec package className

end Codec

end CommandWord
