import CommandWord.Toml.Scalar

/-!
Quoted text of a TOML document in its four forms. Between double quotes a backslash starts an
escape, between single quotes everything stands for itself; tripled quotes enclose several
lines. Each function reads behind the opening quotes and yields the content and what follows the
closing ones.
-/

namespace CommandWord.Toml

def isPlain (c : Char) : Bool :=
  c = '\t' || ' ' ≤ c && c ≠ '\x7f'

def isBlank (c : Char) : Bool :=
  c = ' ' || c = '\t'

def charOfCode (digits : List Char) : Option Char :=
  let code := numberOfDigits 16 digits
  if digits.all isHexDigit ∧ code.isValidChar then some (Char.ofNat code) else none

def shortEscape : Char → Option Char
  | 'b' => some '\x08'
  | 't' => some '\t'
  | 'n' => some '\n'
  | 'f' => some '\x0c'
  | 'r' => some '\r'
  | 'e' => some '\x1b'
  | '"' => some '"'
  | '\\' => some '\\'
  | _ => none

abbrev Read := Option (List Char × List Char)

def prepend (c : Char) (read : Read) : Read :=
  read.map fun (content, rest) => (c :: content, rest)

def prepend? (c : Option Char) (read : Read) : Read :=
  c.bind fun c => prepend c read

def basicLine : List Char → Read
  | '"' :: rest => some ([], rest)
  | '\\' :: 'x' :: a :: b :: rest => prepend? (charOfCode [a, b]) (basicLine rest)
  | '\\' :: 'u' :: a :: b :: c :: d :: rest =>
      prepend? (charOfCode [a, b, c, d]) (basicLine rest)
  | '\\' :: 'U' :: a :: b :: c :: d :: e :: f :: g :: h :: rest =>
      prepend? (charOfCode [a, b, c, d, e, f, g, h]) (basicLine rest)
  | '\\' :: c :: rest => prepend? (shortEscape c) (basicLine rest)
  | c :: rest => if isPlain c then prepend c (basicLine rest) else none
  | [] => none

def literalLine : List Char → Read
  | '\'' :: rest => some ([], rest)
  | c :: rest => if isPlain c then prepend c (literalLine rest) else none
  | [] => none

/-- Blanks up to the end of the line: behind a backslash they and the end of the line are left
out, together with all white space after it. -/
def endsLine (text : List Char) : Bool :=
  match text.dropWhile isBlank with
  | '\n' :: _ => true
  | '\r' :: '\n' :: _ => true
  | _ => false

/-- Several lines between tripled double quotes. One or two quotes may stand before the closing
ones. While `trimming`, white space is left out. -/
def basicLines (trimming : Bool) : List Char → Read
  | '"' :: '"' :: '"' :: '"' :: '"' :: rest => some (['"', '"'], rest)
  | '"' :: '"' :: '"' :: '"' :: rest => some (['"'], rest)
  | '"' :: '"' :: '"' :: rest => some ([], rest)
  | '\r' :: '\n' :: rest =>
      if trimming then basicLines true rest
      else prepend '\r' (prepend '\n' (basicLines false rest))
  | '\\' :: 'x' :: a :: b :: rest => prepend? (charOfCode [a, b]) (basicLines false rest)
  | '\\' :: 'u' :: a :: b :: c :: d :: rest =>
      prepend? (charOfCode [a, b, c, d]) (basicLines false rest)
  | '\\' :: 'U' :: a :: b :: c :: d :: e :: f :: g :: h :: rest =>
      prepend? (charOfCode [a, b, c, d, e, f, g, h]) (basicLines false rest)
  | '\\' :: c :: rest =>
      if endsLine (c :: rest) then basicLines true (c :: rest)
      else prepend? (shortEscape c) (basicLines false rest)
  | c :: rest =>
      if trimming && (isBlank c || c = '\n') then basicLines true rest
      else if isPlain c || c = '\n' then prepend c (basicLines false rest)
      else none
  | [] => none

def literalLines : List Char → Read
  | '\'' :: '\'' :: '\'' :: '\'' :: '\'' :: rest => some (['\'', '\''], rest)
  | '\'' :: '\'' :: '\'' :: '\'' :: rest => some (['\''], rest)
  | '\'' :: '\'' :: '\'' :: rest => some ([], rest)
  | '\r' :: '\n' :: rest => prepend '\r' (prepend '\n' (literalLines rest))
  | c :: rest => if isPlain c || c = '\n' then prepend c (literalLines rest) else none
  | [] => none

def dropFirstBreak : List Char → List Char
  | '\n' :: rest => rest
  | '\r' :: '\n' :: rest => rest
  | rest => rest

end CommandWord.Toml
