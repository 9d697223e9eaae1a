import CommandWord.Text.Unprintable

/-!
Text as it is put out: lines and columns, numbers as digits, and quoted text. A width is always a
minimum, so what is wider stands as it is. Hexadecimal digits are lower case and carry no leading
zeros unless a width is asked for. Between quotes every character can be seen: the quote and the
backslash are escaped, the usual controls have their short names, and any other unprintable
character is written as its code point in braces. For a decimal with a fixed number of places, a
double is read as the exact fraction that it stands for, and the fraction is rounded to the
nearest decimal; a tie goes to the even neighbour.
-/

namespace CommandWord

namespace Lines

def unlines (lines : List String) : String :=
  String.join (lines.map (· ++ "\n"))

def alignLeft (width : Nat) (text : String) : String :=
  String.ofList (text.toList.rightpad width ' ')

def alignRight (width : Nat) (text : String) : String :=
  String.ofList (text.toList.leftpad width ' ')

end Lines

namespace Digits

/-- The digits of `n` in base `base`, the most significant first, filled up with zeros to at
least `width` of them. -/
def padded (base width n : Nat) : List Char :=
  (Nat.toDigits base n).leftpad width '0'

def hex (n : Nat) : String :=
  "0x" ++ String.ofList (Nat.toDigits 16 n)

def paddedHex (width n : Nat) : String :=
  String.ofList (padded 16 width n)

def paddedBinary (width n : Nat) : String :=
  String.ofList (padded 2 width n)

end Digits

namespace Decimal

/-- The whole number nearest to `numerator / denominator`, the even one of two. -/
def roundDiv (numerator denominator : Nat) : Nat :=
  let low := numerator / denominator
  let rest := 2 * (numerator % denominator)
  if denominator < rest ∨ denominator = rest ∧ low % 2 = 1 then low + 1 else low

def fraction (x : Float) : Nat × Nat :=
  let bits := x.toBits.toNat
  let exponent := bits >>> 52 % 2048
  let mantissa := bits % 1 <<< 52
  let normal := mantissa + 1 <<< 52
  if exponent = 0 then (mantissa, 1 <<< 1074)
  else if exponent < 1075 then (normal, 1 <<< (1075 - exponent))
  else (normal <<< (exponent - 1075), 1)

/-- A number of units of the last place, written with that many places behind the point. -/
def ofUnits (places units : Nat) : String :=
  let one := Nat.pow 10 places
  let behind := (Nat.toDigits 10 (units % one)).leftpad places '0'
  toString (units / one) ++ String.ofList ('.' :: behind)

def fixed (places : Nat) (x : Float) : String :=
  let (numerator, denominator) := fraction x
  ofUnits places (roundDiv (numerator * Nat.pow 10 places) denominator)

end Decimal

namespace Quoted

def encodeChar (c : Char) : List Char :=
  if c = '"' then ['\\', '"']
  else if c = '\\' then ['\\', '\\']
  else if c = '\n' then ['\\', 'n']
  else if c = '\r' then ['\\', 'r']
  else if c = '\t' then ['\\', 't']
  else if c = '\x00' then ['\\', '0']
  else if Unprintable c then
    "\\u\x7b".toList ++ Nat.toDigits 16 c.toNat ++ ['\x7d']
  else [c]

def quote (text : String) : String :=
  String.ofList ('"' :: (text.toList.flatMap encodeChar ++ ['"']))

end Quoted

end CommandWord
