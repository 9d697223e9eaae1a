import CommandWord.Text

/-!
Numbers on the command line. A 64-bit number is one or more digits with at most one plus sign
in front; a mask may also be written in hexadecimal behind a mark. The digits are read from the
left, and the first one that is no digit or makes the number too large decides the error.
-/

namespace CommandWord

inductive NumberError where
  | empty
  | invalidDigit
  | tooLarge
  deriving DecidableEq

namespace NumberError

def message : NumberError → String
  | empty => "cannot parse integer from empty string"
  | invalidDigit => "invalid digit found in string"
  | tooLarge => "number too large to fit in target type"

end NumberError

namespace Number

def digitValue? (base : Nat) (c : Char) : Option Nat :=
  let value :=
    if c.isDigit then some (c.toNat - '0'.toNat)
    else if 'a' ≤ c ∧ c ≤ 'f' then some (c.toNat - 'a'.toNat + 10)
    else if 'A' ≤ c ∧ c ≤ 'F' then some (c.toNat - 'A'.toNat + 10)
    else none
  value.filter (· < base)

def readDigits (base : Nat) (sum : Nat) : List Char → Except NumberError Nat
  | [] => .ok sum
  | c :: rest =>
      match digitValue? base c with
      | none => .error .invalidDigit
      | some digit =>
          let next := sum * base + digit
          if next < UInt64.size then readDigits base next rest else .error .tooLarge

def readUnsigned (base : Nat) : List Char → Except NumberError Nat
  | [] => .error .empty
  | ['+'] => .error .invalidDigit
  | '+' :: digits => readDigits base 0 digits
  | digits => readDigits base 0 digits

def decimal? (text : String) : Except NumberError Nat :=
  readUnsigned 10 text.toList

def mask? (text : String) : Except NumberError UInt64 :=
  let number := match text.toList with
    | '0' :: 'x' :: digits => readUnsigned 16 digits
    | '0' :: 'X' :: digits => readUnsigned 16 digits
    | digits => readUnsigned 10 digits
  number.map UInt64.ofNat

def maskMessage (text : String) (cause : NumberError) : String :=
  s!"invalid number {Quoted.quote text}: {cause.message}"

/-- A word width. It is read as a signed number, so a minus sign may stand in front of zero. -/
def width? (text : String) : Option Nat :=
  let (negative, magnitude) := match text.toList with
    | '-' :: digits => (true, readDigits 10 0 digits)
    | '+' :: digits => (false, readDigits 10 0 digits)
    | digits => (false, readDigits 10 0 digits)
  match magnitude with
  | .error _ => none
  | .ok n =>
      if text ∈ ["", "+", "-"] ∨ UInt32.size ≤ n ∨ negative ∧ n ≠ 0 then none else some n

end Number

end CommandWord
