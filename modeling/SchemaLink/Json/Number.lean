import SchemaLink.Decimal.Shortest

/-! # Numbers

Whole numbers in range stay exact, and all others are floating-point numbers. Such
a number is written with the fewest digits that read back, and always with a
fraction or an exponent, so that no reader takes it for a whole number. -/

namespace SchemaLink.Json

inductive Number where
  | integer (value : Int)
  | float (value : Binary64)
  deriving DecidableEq, Repr

namespace Number

/-- Where positional notation ends: the exponents of the leading digit it is used for. -/
structure PositionalRange where
  least : Int
  greatest : Int

/-- From `0.00001` up to `1000000000000000.0` numbers are written positionally. -/
def positionalRange : PositionalRange := ⟨-5, 15⟩

def zeros (n : Nat) : List Char := List.replicate n '0'

def naturalText (n : Nat) : List Char := Nat.toDigits 10 n

/-- An exponent, whose sign is always written. -/
def exponentText (exponent : Int) : List Char :=
  (if exponent < 0 then '-' else '+') :: naturalText exponent.natAbs

/-- A positive decimal. -/
def decimalText (decimal : Decimal) : List Char :=
  let digits := naturalText decimal.digits
  let leading : Int := decimal.power + digits.length - 1
  if leading < positionalRange.least || positionalRange.greatest < leading then
    match digits with
    | [] => []
    | [digit] => digit :: 'e' :: exponentText leading
    | digit :: fraction => digit :: '.' :: fraction ++ 'e' :: exponentText leading
  else if leading < 0 then '0' :: '.' :: zeros (-leading - 1).toNat ++ digits
  else if decimal.power < 0 then
    digits.take (leading + 1).toNat ++ '.' :: digits.drop (leading + 1).toNat
  else digits ++ zeros decimal.power.toNat ++ ['.', '0']

def text : Number → List Char
  | integer value => if value < 0 then '-' :: naturalText value.natAbs else naturalText value.toNat
  | float value =>
    let magnitude := if value.mantissa = 0 then ['0', '.', '0'] else decimalText value.shortest
    if value.negative then '-' :: magnitude else magnitude

end Number

end SchemaLink.Json
