import SchemaLink.Json.Fault
import SchemaLink.Json.Number

/-! # Numerals

A numeral is a whole part, a fraction and an exponent. A number that is kept has
to be in range; one that is skipped only has to follow the grammar. -/

namespace SchemaLink.Json

def isDigit (c : Char) : Bool := '0' ≤ c && c ≤ '9'

def digitValue (c : Char) : Nat := c.toNat - '0'.toNat

def isExponentMark (c : Char) : Bool := c == 'e' || c == 'E'

/-- The greatest significand; digits that would exceed it are not taken into it. -/
def greatestSignificand : Nat := Nat.pow 2 64 - 1

/-- Take digits into a significand until one does not fit; the digits from there on are left. -/
def accumulate (significand : Nat) : List Char → Nat × List Char
  | [] => (significand, [])
  | digit :: digits =>
    let next := significand * 10 + digitValue digit
    if next ≤ greatestSignificand then accumulate next digits else (significand, digit :: digits)

/-- The fault where digits are missing: a kept number may end there too early. -/
def missingDigits (rest : List Char) : Fault := if rest.isEmpty then .unfinished else .malformed

/-- The digits before the point. Only a zero that stands alone may come first. -/
def readWhole (text : List Char) : Except Fault (List Char × List Char) :=
  let digits := text.takeWhile isDigit
  let rest := text.dropWhile isDigit
  if digits.isEmpty then .error (missingDigits rest)
  else if digits.head? = some '0' && digits.length != 1 then .error .malformed
  else .ok (digits, rest)

/-- The digits after the point, if there is a point. -/
def readFraction : List Char → Except Fault (Option (List Char) × List Char)
  | '.' :: text =>
    let digits := text.takeWhile isDigit
    let rest := text.dropWhile isDigit
    if digits.isEmpty then .error (missingDigits rest) else .ok (some digits, rest)
  | text => .ok (none, text)

/-- The sign of an exponent, and the text after it. -/
def readSign : List Char → Bool × List Char
  | '+' :: text => (false, text)
  | '-' :: text => (true, text)
  | text => (false, text)

/-- The exponent, if there is one. -/
def readExponent : List Char → Except Fault (Option Int × List Char)
  | [] => .ok (none, [])
  | mark :: text =>
    if isExponentMark mark then
      let (negative, text) := readSign text
      let digits := text.takeWhile isDigit
      let rest := text.dropWhile isDigit
      if digits.isEmpty then .error (missingDigits rest)
      else
        let value : Nat := digits.foldl (fun value digit => value * 10 + digitValue digit) 0
        .ok (some (if negative then -value else value), rest)
    else .ok (none, mark :: text)

/-- A whole number that is kept exactly if it is in range; a zero with a sign is not. -/
def wholeNumber (negative : Bool) (significand : Nat) : Number :=
  if negative then
    if significand = 0 || Nat.pow 2 63 < significand then
      .float { Binary64.ofNat significand with negative := true }
    else .integer (-significand)
  else .integer significand

/-- The number written with these parts. Digits that do not fit into the significand count for
the power of ten before the point and for nothing after it. -/
def ofParts (negative : Bool) (whole : List Char) (fraction : Option (List Char))
    (exponent : Option Int) : Except Fault Number :=
  let (significand, excess) := accumulate 0 whole
  if fraction.isNone && exponent.isNone && excess.isEmpty then
    .ok (wholeNumber negative significand)
  else
    let digits := fraction.getD []
    let (significand, left) := accumulate significand digits
    let places : Int := digits.length - left.length
    let power := excess.length - places + exponent.getD 0
    match Binary64.ofDecimal? negative significand power with
    | some value => .ok (.float value)
    | none => .error .malformed

/-- A number that is kept, from after its minus sign. -/
def readMagnitude (negative : Bool) (text : List Char) : Except Fault Number := do
  let (whole, text) ← readWhole text
  let (fraction, text) ← readFraction text
  let (exponent, _) ← readExponent text
  ofParts negative whole fraction exponent

/-- Pass over a number, from after its minus sign. Missing digits are faults of the grammar
even at the end of the text. -/
def skipMagnitude (text : List Char) : Except Fault (List Char) :=
  let skipped := do
    let (_, text) ← readWhole text
    let (_, text) ← readFraction text
    let (_, text) ← readExponent text
    pure text
  skipped.mapError fun _ => .malformed

theorem readWhole_length {text : List Char} {found : List Char × List Char}
    (h : readWhole text = .ok found) : found.2.length < text.length := by
  simp only [readWhole] at h
  split at h
  · cases h
  · next hdigits =>
    split at h
    · cases h
    · cases h
      have hlen := congrArg List.length (List.takeWhile_append_dropWhile (p := isDigit) (l := text))
      have hpos := List.length_pos_iff.2 (by simpa using hdigits : text.takeWhile isDigit ≠ [])
      rw [List.length_append] at hlen
      simp only
      omega

theorem readFraction_length {text : List Char} {found : Option (List Char) × List Char}
    (h : readFraction text = .ok found) : found.2.length ≤ text.length := by
  unfold readFraction at h
  split at h
  · next rest =>
    have := (List.dropWhile_sublist (l := rest) isDigit).length_le
    simp only at h
    split at h
    · cases h
    · cases h
      simp only [List.length_cons]
      omega
  · cases h; exact Nat.le_refl _

theorem readSign_length (text : List Char) : (readSign text).2.length ≤ text.length := by
  unfold readSign
  split <;> simp

theorem readExponent_length {text : List Char} {found : Option Int × List Char}
    (h : readExponent text = .ok found) : found.2.length ≤ text.length := by
  unfold readExponent at h
  split at h
  · cases h; exact Nat.le_refl _
  · next mark rest =>
    split at h
    · have hsign := readSign_length rest
      have := (List.dropWhile_sublist (l := (readSign rest).2) isDigit).length_le
      simp only at h
      split at h
      · cases h
      · cases h
        simp only [List.length_cons]
        omega
    · cases h; exact Nat.le_refl _

theorem skipMagnitude_length {text rest : List Char} (h : skipMagnitude text = .ok rest) :
    rest.length < text.length := by
  unfold skipMagnitude at h
  cases hwhole : readWhole text with
  | error fault => rw [hwhole] at h; cases h
  | ok whole =>
    cases hfraction : readFraction whole.2 with
    | error fault => rw [hwhole] at h; simp only [bind, Except.bind, hfraction] at h; cases h
    | ok fraction =>
      cases hexponent : readExponent fraction.2 with
      | error fault =>
        rw [hwhole] at h; simp only [bind, Except.bind, hfraction, hexponent] at h; cases h
      | ok exponent =>
        rw [hwhole] at h
        simp only [bind, Except.bind, hfraction, hexponent] at h
        cases h
        have := readWhole_length hwhole
        have := readFraction_length hfraction
        have := readExponent_length hexponent
        omega

end SchemaLink.Json
