import SchemaLink.Decimal.Binary64
import SchemaLink.Toml.Text

/-! # Numbers of TOML text

Integers have 64 bits. A float has a fraction, an exponent or both, or is named; one
above zero has to be in range. -/

namespace SchemaLink.Toml

/-- Digits in a base, with single underscores between them. -/
def readDigits (base value : Nat) (afterDigit : Bool) : List Char → Option Nat
  | [] => if afterDigit then some value else none
  | '_' :: rest => if afterDigit then readDigits base value false rest else none
  | c :: rest =>
    match digit? c with
    | some digit =>
      if digit < base then readDigits base (value * base + digit) true rest else none
    | none => none

/-- A decimal number, which starts with a zero only if it is one. -/
def readDecimal (digits : List Char) : Option Nat :=
  if digits.head? = some '0' && digits.length != 1 then none else readDigits 10 0 false digits

/-! ## Integers -/

def readInteger : List Char → Option Int
  | '0' :: 'x' :: digits => (readDigits 16 0 false digits).map Int.ofNat
  | '0' :: 'o' :: digits => (readDigits 8 0 false digits).map Int.ofNat
  | '0' :: 'b' :: digits => (readDigits 2 0 false digits).map Int.ofNat
  | '+' :: digits => (readDecimal digits).map Int.ofNat
  | '-' :: digits => (readDecimal digits).map fun n => -Int.ofNat n
  | digits => (readDecimal digits).map Int.ofNat

/-- Integers have 64 bits, so they are less than this. -/
def integerBound : Int := Int.ofNat (Nat.pow 2 63)

def isInRange (value : Int) : Bool := -integerBound ≤ value && value < integerBound

/-! ## Floats -/

/-- Whether a number is negative, and the text after its sign. -/
def readSign : List Char → Bool × List Char
  | '+' :: rest => (false, rest)
  | '-' :: rest => (true, rest)
  | text => (false, text)

/-- The exponent at the end of a float, which is zero where there is none. -/
def readExponent : List Char → Option Int
  | [] => some 0
  | mark :: text =>
    if mark == 'e' || mark == 'E' then
      let (negative, digits) := readSign text
      (readDigits 10 0 false digits).map fun n => if negative then -Int.ofNat n else Int.ofNat n
    else none

def isDigitChar (c : Char) : Bool := c.isDigit || c == '_'

/-- A float without its sign, as a significand and a power of ten. -/
def readFloat (text : List Char) : Option (Nat × Int) := do
  let whole ← readDecimal (text.takeWhile isDigitChar)
  match text.dropWhile isDigitChar with
  | [] => none
  | '.' :: rest =>
    let digits := rest.takeWhile isDigitChar
    let fraction ← readDigits 10 0 false digits
    let exponent ← readExponent (rest.dropWhile isDigitChar)
    let places := digits.countP Char.isDigit
    some (whole * Nat.pow 10 places + fraction, exponent - places)
  | rest => some (whole, ← readExponent rest)

def isFloat (word : List Char) : Bool :=
  let (negative, magnitude) := readSign word
  if magnitude = "inf".toList || magnitude = "nan".toList then true
  else
    match readFloat magnitude with
    | none => false
    | some (significand, power) => negative || Binary64.isDecimalFinite significand power

end SchemaLink.Toml
