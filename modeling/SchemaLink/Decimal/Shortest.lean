import SchemaLink.Decimal.Binary64

/-! # Shortest decimals

The decimal with the fewest digits that reads back as a given number; of several,
the one nearest to it. -/

namespace SchemaLink

/-- The decimal `digits * 10 ^ power`. -/
structure Decimal where
  digits : Nat
  power : Int
  deriving DecidableEq, Repr

namespace Decimal

/-- The reals that round to a number, with the number itself: numerators over one denominator.
They reach half a step to either side, and a quarter below a power of two, where steps become
shorter; the ends belong to them iff the mantissa is even. -/
structure Interval where
  low : Nat
  value : Nat
  high : Nat
  closed : Bool
  denominator : Nat

def Interval.around (x : Binary64) : Interval :=
  let isPower : Bool := 2 * x.mantissa = Binary64.mantissaBound
  let below := if isPower && Binary64.leastExponent < x.exponent then 1 else 2
  { low := Binary64.scaled 2 (4 * x.mantissa - below) x.exponent
    value := Binary64.scaled 2 (4 * x.mantissa) x.exponent
    high := Binary64.scaled 2 (4 * x.mantissa + 2) x.exponent
    closed := x.mantissa % 2 = 0
    denominator := Binary64.scaled 2 4 (-x.exponent) }

def Interval.contains (interval : Interval) (numerator : Nat) : Bool :=
  if interval.closed then interval.low ≤ numerator && numerator ≤ interval.high
  else interval.low < numerator && numerator < interval.high

/-- The interval in units of `10 ^ power`. -/
def Interval.inUnits (interval : Interval) (power : Int) : Interval :=
  { low := Binary64.scaled 10 interval.low (-power)
    value := Binary64.scaled 10 interval.value (-power)
    high := Binary64.scaled 10 interval.high (-power)
    closed := interval.closed
    denominator := Binary64.scaled 10 interval.denominator power }

/-- The integer in an interval that is nearest to its value, if one of the value's two
neighbours is in it; of two at the same distance the even one. -/
def Interval.nearest? (interval : Interval) : Option Nat :=
  let floor := interval.value / interval.denominator
  let inside (n : Nat) : Bool := n != 0 && interval.contains (n * interval.denominator)
  match inside floor, inside (floor + 1) with
  | true, true => some (Binary64.roundQuotient interval.value interval.denominator)
  | true, false => some floor
  | false, true => some (floor + 1)
  | false, false => none

/-- The greatest `k` with `10 ^ k ≤ num / den`, found by counting down from an upper bound. -/
def log10Quotient (num den : Nat) : Nat → Int → Int
  | 0, k => k
  | fuel + 1, k =>
    if Binary64.scaled 10 den k ≤ Binary64.scaled 10 num (-k) then k
    else log10Quotient num den fuel (k - 1)

/-- Try grids of one more digit at a time, from the one of the leading digit. -/
def search (interval : Interval) : Nat → Int → Option Decimal
  | 0, _ => none
  | fuel + 1, power =>
    match (interval.inUnits power).nearest? with
    | some digits => some ⟨digits, power⟩
    | none => search interval fuel (power - 1)

/-- Drop zeros from the end of the digits. -/
def trim : Nat → Decimal → Decimal
  | 0, decimal => decimal
  | fuel + 1, decimal =>
    if decimal.digits % 10 = 0 && decimal.digits != 0 then
      trim fuel ⟨decimal.digits / 10, decimal.power + 1⟩
    else decimal

end Decimal

/-- The shortest decimal that reads back as a positive number. Seventeen digits always do. -/
def Binary64.shortest (x : Binary64) : Decimal :=
  let (num, den) := x.quotient
  -- 30103 / 100000 is just above the decimal logarithm of two
  let bound := (Binary64.log2Quotient num den + 1) * 30103 / 100000 + 1
  let leading := Decimal.log10Quotient num den 4 bound
  ((Decimal.search (.around x) 17 leading).map (Decimal.trim 17)).getD ⟨0, 0⟩

end SchemaLink
