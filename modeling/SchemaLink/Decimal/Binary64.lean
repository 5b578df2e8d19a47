/-! # Binary floating-point numbers

Double-precision numbers as a sign, a mantissa and a power of two. Every
operation computes the exact result first and rounds it once, to the nearest
number and halfway cases to the even mantissa. -/

namespace SchemaLink

/-- The number `mantissa * 2 ^ exponent`, negated if `negative`. Results of rounding have a
mantissa below `2 ^ 53` and, unless the exponent is the least one, of at least `2 ^ 52`. -/
structure Binary64 where
  negative : Bool
  mantissa : Nat
  exponent : Int
  deriving DecidableEq, Repr

namespace Binary64

/-- The exponent of the subnormal numbers. -/
def leastExponent : Int := -1074

/-- The exponent of the largest finite numbers. -/
def greatestExponent : Int := 971

/-- Mantissas are less than this. -/
def mantissaBound : Nat := Nat.pow 2 53

/-- A number times a power of a base, which counts only if its exponent is positive. -/
def scaled (base n : Nat) (exponent : Int) : Nat := n * Nat.pow base exponent.toNat

def zero : Binary64 := ⟨false, 0, leastExponent⟩

/-- A quotient as the nearest integer, halfway cases to the even one. -/
def roundQuotient (num den : Nat) : Nat :=
  let quotient := num / den
  let twice := 2 * (num % den)
  if twice < den || (twice = den && quotient % 2 = 0) then quotient else quotient + 1

/-- The greatest `k` with `2 ^ k ≤ num / den`, for positive numbers. -/
def log2Quotient (num den : Nat) : Int :=
  let k : Int := (num.log2 : Int) - (den.log2 : Int)
  if scaled 2 den k ≤ scaled 2 num (-k) then k else k - 1

/-- The number nearest to `num / den`; its exponent is not bounded above. -/
def ofQuotient (num den : Nat) : Binary64 :=
  if num = 0 then zero
  else
    let exponent := max (log2Quotient num den - 52) leastExponent
    let mantissa := roundQuotient (scaled 2 num (-exponent)) (scaled 2 den exponent)
    if mantissa < mantissaBound then ⟨false, mantissa, exponent⟩
    else ⟨false, mantissa / 2, exponent + 1⟩

def ofNat (n : Nat) : Binary64 := ofQuotient n 1

/-- The number is in range, that is, not infinite. -/
def isFinite (x : Binary64) : Bool := x.exponent ≤ greatestExponent

/-- The magnitude of the number as a numerator and a denominator. -/
def quotient (x : Binary64) : Nat × Nat :=
  (scaled 2 x.mantissa x.exponent, scaled 2 1 (-x.exponent))

/-- The product of two magnitudes. -/
def mul (x y : Binary64) : Binary64 :=
  ofQuotient (x.quotient.1 * y.quotient.1) (x.quotient.2 * y.quotient.2)

/-- The quotient of two magnitudes. -/
def div (x y : Binary64) : Binary64 :=
  ofQuotient (x.quotient.1 * y.quotient.2) (x.quotient.2 * y.quotient.1)

/-- The number nearest to a power of ten. -/
def powerOfTen (k : Nat) : Binary64 := ofNat (Nat.pow 10 k)

/-- The greatest power of ten that is a number. -/
def greatestPower : Nat := 308

/-- Divide by `10 ^ k`, by one power that is a number after another. -/
def scaleDown (x : Binary64) (k : Nat) : Binary64 :=
  if k ≤ greatestPower then x.div (powerOfTen k)
  else if x.mantissa = 0 then x
  else scaleDown (x.div (powerOfTen greatestPower)) (k - greatestPower)
termination_by k
decreasing_by simp_all [greatestPower]; omega

/-- Multiply by `10 ^ k`, if the result is in range. -/
def scaleUp? (x : Binary64) (k : Nat) : Option Binary64 :=
  if k ≤ greatestPower then
    let product := x.mul (powerOfTen k)
    if product.isFinite then some product else none
  else if x.mantissa = 0 then some x
  else none

/-- The number nearest to `significand * 10 ^ power` is in range. How many digits stand before
the point tells that, unless there are as many as the greatest number has. -/
def isDecimalFinite (significand : Nat) (power : Int) : Bool :=
  let length := (Nat.toDigits 10 significand).length + power
  if significand = 0 || length ≤ greatestPower then true
  else if length = greatestPower + 1 then
    (ofQuotient (scaled 10 significand power) (scaled 10 1 (-power))).isFinite
  else false

/-- The number written as a significand and a power of ten, if it is in range. The significand
is rounded first and the result once more. -/
def ofDecimal? (negative : Bool) (significand : Nat) (power : Int) : Option Binary64 :=
  let magnitude := ofNat significand
  let scaled :=
    if power < 0 then some (magnitude.scaleDown (-power).toNat)
    else magnitude.scaleUp? power.toNat
  scaled.map fun x => { x with negative := negative }

end Binary64

end SchemaLink
