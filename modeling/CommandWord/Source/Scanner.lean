/-!
Reading a text from its front. A scanner takes something off the front of what is left of a text
and says what it has read, or refuses. Words go on for as long as there are letters, digits and
underscores, and numbers are words that are made of digits.
-/

namespace CommandWord

abbrev Scanner := StateT (List Char) Option

namespace Scanner

variable {α : Type}

/-- What is left of an input behind these characters. -/
def behind : List Char → List Char → Option (List Char)
  | [], input => some input
  | _ :: _, [] => none
  | c :: rest, first :: input => if c = first then behind rest input else none

def mark (chars : List Char) : Scanner Unit := fun input =>
  (behind chars input).map fun rest => ((), rest)

def literally (text : String) : Scanner Unit := mark text.toList

def lineBreak : Scanner Unit := mark ['\n']

def lines : List String → Scanner Unit
  | [] => pure ()
  | line :: rest => do
      literally line
      lineBreak
      lines rest

def span (p : Char → Bool) : Scanner (List Char) := fun input =>
  some (input.takeWhile p, input.dropWhile p)

def restOfLine : Scanner Unit := do
  let _ ← span (· != '\n')
  lineBreak

def isWordChar (c : Char) : Bool := c.isAlphanum || c == '_'

def word : Scanner (List Char) := do
  let text ← span isWordChar
  if text = [] then failure else return text

def name : Scanner String := do
  let text ← word
  return String.ofList text

def digit? (base : Nat) (c : Char) : Option Nat :=
  (List.range base).find? fun value => c.toLower == value.digitChar

def number? (base : Nat) (text : List Char) : Option Nat :=
  if text = [] then none
  else (text.mapM (digit? base)).map fun digits =>
    digits.foldl (fun number digit => base * number + digit) 0

def numeral (base : Nat) : Scanner Nat := do
  let text ← word
  match number? base text with
  | some number => return number
  | none => failure

def decimal : Scanner Nat := numeral 10

def before (chars text : List Char) : Option (List Char) :=
  (behind chars.reverse text.reverse).map List.reverse

def hexadecimal (suffix : String) : Scanner UInt64 := do
  literally "0x"
  let text ← word
  match (before suffix.toList text).bind (number? 16) with
  | some number => if number < UInt64.size then return UInt64.ofNat number else failure
  | none => failure

/-- The items at the front of an input, up to the first thing that is none. -/
def itemsOf (item : Scanner α) (input : List Char) : List α × List Char :=
  match item input with
  | none => ([], input)
  | some (value, rest) =>
      if rest.length < input.length then
        let (values, behind) := itemsOf item rest
        (value :: values, behind)
      else ([], input)
termination_by input.length

def many (item : Scanner α) : Scanner (List α) := fun input => some (itemsOf item input)

def skipping (item : Scanner Unit) : Scanner Unit := do
  let _ ← many item

def lineOpening (opening : String) : Scanner Unit := do
  literally opening
  restOfLine

/-- A line that is empty or has nothing but a remark. -/
def remark : Scanner Unit := do
  let _ ← span (· == ' ')
  lineBreak <|> (do literally "//"; restOfLine)

def remarks : Scanner Unit := skipping remark

def group (item : Scanner α) : Scanner (List α) := do
  remark
  many item

def separated (between : String) (item : Scanner α) : Scanner (List α) := do
  let first ← item
  let rest ← many (do literally between; item)
  return first :: rest

def readAll (scanner : Scanner α) (text : String) : Option α :=
  match scanner text.toList with
  | some (value, []) => some value
  | _ => none

end Scanner

end CommandWord
