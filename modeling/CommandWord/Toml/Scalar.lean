import CommandWord.Toml.Value

/-!
Unquoted values of a TOML document: whole numbers in four bases, numbers with a fraction or an
exponent, truth values, dates and times. Digits may be grouped by single underscores. What is
spelled like a number but has no value in 128 bits, or in a double, is a value that cannot be
read; a document may hold it where nobody looks.
-/

namespace CommandWord.Toml

def ungroup (isDigit : Char → Bool) (text : List Char) : Option (List Char) :=
  let groups := text.splitOn '_'
  if groups.all (fun group => !group.isEmpty && group.all isDigit) then some groups.flatten
  else none

def digitValue (c : Char) : Nat :=
  if c.isDigit then c.toNat - '0'.toNat
  else if c.isLower then c.toNat - 'a'.toNat + 10
  else c.toNat - 'A'.toNat + 10

def isHexDigit (c : Char) : Bool :=
  c.isDigit || 'a' ≤ c && c ≤ 'f' || 'A' ≤ c && c ≤ 'F'

def isOctalDigit (c : Char) : Bool :=
  '0' ≤ c && c ≤ '7'

def isBinaryDigit (c : Char) : Bool :=
  c = '0' || c = '1'

def numberOfDigits (base : Nat) (digits : List Char) : Nat :=
  digits.foldl (fun sum c => sum * base + digitValue c) 0

def splitSign : List Char → Option Char × List Char
  | '-' :: rest => (some '-', rest)
  | '+' :: rest => (some '+', rest)
  | rest => (none, rest)

def signed (sign : Option Char) (n : Nat) : Int :=
  if sign = some '-' then -(n : Int) else n

def wholeNumber (n : Int) : Value :=
  if -(1 <<< 127 : Nat) ≤ n ∧ n < (1 <<< 128 : Nat) then .integer n else .unreadable

def basedNumber? (base : Nat) (isDigit : Char → Bool) (text : List Char) : Option Value :=
  if text = [] then some .unreadable
  else (ungroup isDigit text).map fun digits => wholeNumber (numberOfDigits base digits)

/-- Groups behind the first begin with a hexadecimal digit, and all but the last end with one.
Nothing else is asked of them before the number is read. -/
def areGroups : List (List Char) → Bool
  | [] => true
  | [last] => last.head?.any isHexDigit
  | group :: rest => group.head?.any isHexDigit && group.getLast?.any isHexDigit && areGroups rest

def isLead (lead : List Char) (groups : List (List Char)) : Bool :=
  lead.all Char.isDigit &&
    match lead with
    | [] => false
    | '0' :: rest => rest.isEmpty && groups.isEmpty
    | _ => true

/-- A whole number in base ten, from its sign and what follows it. Between the underscores a
space stands nowhere, but a tab may. -/
def decimalNumber? (sign : Option Char) (magnitude : List Char) : Option Value :=
  match magnitude.splitOn '_' with
  | lead :: groups =>
      if isLead lead groups && areGroups groups && !magnitude.contains ' ' then
        let digits := lead ++ groups.flatten
        if digits.all Char.isDigit then some (wholeNumber (signed sign (numberOfDigits 10 digits)))
        else some .unreadable
      else none
  | [] => none

/-- The decimal `digits · 10 ^ exponent` lies where doubles round to infinity. Only numbers of
about the right size are multiplied out. -/
def overflows (digits : Nat) (exponent : Int) : Bool :=
  let size := (Nat.toDigits 10 digits).length + exponent
  let bound := 1 <<< 1024 - 1 <<< 970
  if digits = 0 ∨ size < 300 then false
  else if 320 < size then true
  else if 0 ≤ exponent then bound ≤ digits * Nat.pow 10 exponent.toNat
  else bound * Nat.pow 10 (-exponent).toNat ≤ digits

def fractionalNumber? (magnitude : List Char) : Option Value := do
  let (number, power) := magnitude.span fun c => c ≠ 'e' && c ≠ 'E'
  let (whole, part) := number.span (· ≠ '.')
  let wholeDigits ← ungroup Char.isDigit whole
  let partDigits ← match part with
    | [] => some []
    | _ :: digits => ungroup Char.isDigit digits
  let exponent ← match power with
    | [] => some 0
    | _ :: rest =>
        let (sign, digits) := splitSign rest
        (ungroup Char.isDigit digits).map fun ds => signed sign (numberOfDigits 10 ds)
  if magnitude.head? = some '0' ∧ wholeDigits.length ≠ 1 then none
  else if overflows (numberOfDigits 10 (wholeDigits ++ partDigits))
      (exponent - partDigits.length) then
    return .unreadable
  else return .float

def number? (text : List Char) : Option Value :=
  match text with
  | '0' :: 'x' :: rest => basedNumber? 16 isHexDigit rest
  | '0' :: 'o' :: rest => basedNumber? 8 isOctalDigit rest
  | '0' :: 'b' :: rest => basedNumber? 2 isBinaryDigit rest
  | _ =>
      let (sign, magnitude) := splitSign text
      if magnitude = "inf".toList ∨ magnitude = "nan".toList then some .float
      else if magnitude.any fun c => c = '.' || c = 'e' || c = 'E' then
        fractionalNumber? magnitude
      else decimalNumber? sign magnitude

def isPair (low high : Nat) (tens ones : Char) : Bool :=
  tens.isDigit && ones.isDigit &&
    low ≤ numberOfDigits 10 [tens, ones] && numberOfDigits 10 [tens, ones] ≤ high

def isLeapYear (year : Nat) : Bool :=
  year % 4 = 0 && (year % 100 ≠ 0 || year % 400 = 0)

def daysInMonth (year month : Nat) : Nat :=
  if month = 2 then (if isLeapYear year then 29 else 28)
  else if month = 4 ∨ month = 6 ∨ month = 9 ∨ month = 11 then 30
  else 31

def afterDate : List Char → Option (List Char)
  | y₁ :: y₂ :: y₃ :: y₄ :: '-' :: m₁ :: m₂ :: '-' :: d₁ :: d₂ :: rest =>
      let days := daysInMonth (numberOfDigits 10 [y₁, y₂, y₃, y₄]) (numberOfDigits 10 [m₁, m₂])
      if [y₁, y₂, y₃, y₄].all Char.isDigit && isPair 1 12 m₁ m₂ && isPair 1 days d₁ d₂ then
        some rest
      else none
  | _ => none

def afterFraction : List Char → Option (List Char)
  | '.' :: rest =>
      match rest.span Char.isDigit with
      | ([], _) => none
      | (_, behind) => some behind
  | rest => some rest

def afterTime : List Char → Option (List Char)
  | h₁ :: h₂ :: ':' :: m₁ :: m₂ :: rest =>
      if isPair 0 23 h₁ h₂ && isPair 0 59 m₁ m₂ then
        match rest with
        | ':' :: s₁ :: s₂ :: behind =>
            if isPair 0 60 s₁ s₂ then afterFraction behind else none
        | _ => some rest
      else none
  | _ => none

def isOffset : List Char → Bool
  | [] => true
  | ['Z'] => true
  | ['z'] => true
  | [sign, h₁, h₂, ':', m₁, m₂] =>
      (sign = '+' || sign = '-') && isPair 0 23 h₁ h₂ && isPair 0 59 m₁ m₂
  | _ => false

def isMoment (text : List Char) : Bool :=
  match afterDate text with
  | some [] => true
  | some (separator :: rest) =>
      (separator = 'T' || separator = 't' || separator = ' ') && (afterTime rest).any isOffset
  | none => afterTime text = some []

def scalar? (text : List Char) : Option Value :=
  if text = "true".toList then some .boolean
  else if text = "false".toList then some .boolean
  else if isMoment text then some .moment
  else number? text

end CommandWord.Toml
