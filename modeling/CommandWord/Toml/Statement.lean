import CommandWord.Toml.Quotation

/-!
Statements of a TOML document, one to a line: headers and assignments. A value may span lines
inside brackets, braces and tripled quotes. Recursion into arrays and inline tables is bounded
by the length of the text, which every step shortens.
-/

namespace CommandWord.Toml

structure DottedKey where
  path : List String
  last : String
  deriving DecidableEq

inductive Statement where
  | table (key : DottedKey)
  | element (key : DottedKey)
  | assign (key : DottedKey) (value : Value)

def nestingLimit : Nat := 80

def skipBlanks (text : List Char) : List Char :=
  text.dropWhile isBlank

def skipSpace (inComment : Bool) : List Char → Option (List Char)
  | '\n' :: rest => skipSpace false rest
  | '\r' :: '\n' :: rest => skipSpace false rest
  | c :: rest =>
      if inComment then (if isPlain c then skipSpace true rest else none)
      else if isBlank c then skipSpace false rest
      else if c = '#' then skipSpace true rest
      else some (c :: rest)
  | [] => some []

def endLine (text : List Char) : Option (List Char) :=
  let behind := match skipBlanks text with
    | '#' :: comment => comment.dropWhile isPlain
    | rest => rest
  match behind with
  | [] => some []
  | '\n' :: rest => some rest
  | '\r' :: '\n' :: rest => some rest
  | _ => none

def isBareKeyChar (c : Char) : Bool :=
  c.isAlphanum || c = '_' || c = '-'

def keyPart : List Char → Read
  | '"' :: rest => basicLine rest
  | '\'' :: rest => literalLine rest
  | text =>
      match text.span isBareKeyChar with
      | ([], _) => none
      | read => some read

def keyParts : (fuel : Nat) → List Char → Option (List String × List Char)
  | 0, _ => none
  | fuel + 1, text => do
      let (part, rest) ← keyPart text
      match skipBlanks rest with
      | '.' :: rest =>
          let (parts, rest) ← keyParts fuel (skipBlanks rest)
          return (String.ofList part :: parts, rest)
      | rest => return ([String.ofList part], rest)

def dottedKey (text : List Char) : Option (DottedKey × List Char) := do
  let (parts, rest) ← keyParts text.length text
  let last ← parts.getLast?
  if nestingLimit < parts.length then none else return (⟨parts.dropLast, last⟩, rest)

def isScalarChar (c : Char) : Bool :=
  !"=,[]\x7b\x7d \t#\r\n".toList.contains c

def isQuote (c : Char) : Bool :=
  c = '"' || c = '\''

/-- The extent of an unquoted value, and what follows it. Blanks belong to the value where another
word of it comes after them, as between a date and a time. -/
def scalarText : (pending : List Char) → List Char → List Char × List Char
  | pending, [] => ([], pending.reverse)
  | pending, c :: rest =>
      if isBlank c then scalarText (c :: pending) rest
      else if isScalarChar c && (pending.isEmpty || !isQuote c) then
        let (text, behind) := scalarText [] rest
        (pending.reverse ++ c :: text, behind)
      else ([], pending.reverse ++ c :: rest)

def afterEquals (text : List Char) : Option (List Char) :=
  match skipBlanks text with
  | '=' :: rest => some (skipBlanks rest)
  | _ => none

def afterSpacedEquals (text : List Char) : Option (List Char) := do
  match ← skipSpace false text with
  | '=' :: rest => skipSpace false rest
  | _ => none

mutual

def value : (fuel depth : Nat) → List Char → Option (Value × List Char)
  | 0, _, _ => none
  | fuel + 1, depth, text =>
      match text with
      | '"' :: '"' :: '"' :: rest =>
          (basicLines false (dropFirstBreak rest)).map fun (content, rest) =>
            (.text (String.ofList content), rest)
      | '\'' :: '\'' :: '\'' :: rest =>
          (literalLines (dropFirstBreak rest)).map fun (content, rest) =>
            (.text (String.ofList content), rest)
      | '"' :: rest =>
          (basicLine rest).map fun (content, rest) => (.text (String.ofList content), rest)
      | '\'' :: rest =>
          (literalLine rest).map fun (content, rest) => (.text (String.ofList content), rest)
      | '[' :: rest =>
          if depth = 0 then none
          else (items fuel (depth - 1) rest).map fun (items, rest) => (.array items, rest)
      | '{' :: rest =>
          if depth = 0 then none
          else do
            let (pairs, rest) ← pairs fuel (depth - 1) rest
            let entries ← pairs.foldlM
              (fun entries (key, value) => Entries.assign key.path key.last value entries) []
            return (.table .inline entries, rest)
      | text => do
          let (spelling, rest) := scalarText [] text
          let value ← scalar? spelling
          return (value, rest)

def items : (fuel depth : Nat) → List Char → Option (List Value × List Char)
  | 0, _, _ => none
  | fuel + 1, depth, text => do
      match ← skipSpace false text with
      | ']' :: rest => return ([], rest)
      | text =>
          let (first, rest) ← value fuel depth text
          match ← skipSpace false rest with
          | ']' :: rest => return ([first], rest)
          | ',' :: rest =>
              let (others, rest) ← items fuel depth rest
              return (first :: others, rest)
          | _ => none

def pairs : (fuel depth : Nat) → List Char → Option (List (DottedKey × Value) × List Char)
  | 0, _, _ => none
  | fuel + 1, depth, text => do
      match ← skipSpace false text with
      | '}' :: rest => return ([], rest)
      | text =>
          let (key, rest) ← dottedKey text
          let rest ← afterSpacedEquals rest
          let (first, rest) ← value fuel depth rest
          match ← skipSpace false rest with
          | '}' :: rest => return ([(key, first)], rest)
          | ',' :: rest =>
              let (others, rest) ← pairs fuel depth rest
              return ((key, first) :: others, rest)
          | _ => none

end

/-- The bounds that the length of the text sets to the recursion of `value`: a bracket, an item
and a separator each take a character. -/
def valueOf (text : List Char) : Option (Value × List Char) :=
  value (2 * text.length + 2) nestingLimit text

def statement (text : List Char) : Option (Statement × List Char) :=
  match text with
  | '[' :: '[' :: rest => do
      let (key, rest) ← dottedKey (skipBlanks rest)
      match skipBlanks rest with
      | ']' :: ']' :: rest => return (.element key, rest)
      | _ => none
  | '[' :: rest => do
      let (key, rest) ← dottedKey (skipBlanks rest)
      match skipBlanks rest with
      | ']' :: rest => return (.table key, rest)
      | _ => none
  | text => do
      let (key, rest) ← dottedKey text
      let rest ← afterEquals rest
      let (value, rest) ← valueOf rest
      return (.assign key value, rest)

def statementsWithin : (fuel : Nat) → List Char → Option (List Statement)
  | 0, _ => none
  | fuel + 1, text => do
      match ← skipSpace false text with
      | [] => return []
      | text =>
          let (first, rest) ← statement text
          let others ← statementsWithin fuel (← endLine rest)
          return first :: others

def statements (document : String) : Option (List Statement) :=
  let text := match document.toList with
    | '\ufeff' :: rest => rest
    | text => text
  statementsWithin (text.length + 1) text

end CommandWord.Toml
