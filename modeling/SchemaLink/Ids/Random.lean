/-! # Random ids

New ids are random: 122 bits, written as a version 4 universally unique identifier. -/

namespace SchemaLink

namespace RandomId

/-- The lowest hexadecimal digits of a number, so many of them. -/
def hexDigits : Nat → Nat → List Char
  | 0, _ => []
  | count + 1, n => hexDigits count (n / 16) ++ [Nat.digitChar (n % 16)]

/-- The identifier made of random bits; the version and the variant stand at fixed places. -/
def text (bits : Nat) : String :=
  let version := 0x4000 + (bits >>> 62) % 0x1000
  let variant := 0x8000 + (bits >>> 48) % 0x4000
  String.ofList <|
    hexDigits 8 (bits >>> 90) ++ '-' :: hexDigits 4 (bits >>> 74) ++
    '-' :: hexDigits 4 version ++ '-' :: hexDigits 4 variant ++ '-' :: hexDigits 12 bits

/-- Draw an identifier from a generator of random numbers. -/
def mint (generator : StdGen) : String × StdGen :=
  let (bits, generator) := randNat generator 0 (Nat.pow 2 122 - 1)
  (text bits, generator)

end RandomId

end SchemaLink
