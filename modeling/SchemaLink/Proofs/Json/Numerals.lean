import SchemaLink.Json.Token
import SchemaLink.Proofs.Text.Fronts

/-! # Numerals

A numeral is a whole part without idle zeros, and then perhaps a fraction and an
exponent. A reader takes exactly the numeral off a text that does not go on with a
character of one. -/

namespace SchemaLink.Json

/-! ## Numerals -/

/-- A run of digits. -/
def IsRun (digits : List Char) : Prop :=
  digits ≠ [] ∧ ∀ c ∈ digits, isDigit c = true

theorem isRun_singleton {c : Char} (h : isDigit c = true) : IsRun [c] :=
  ⟨by simp, by simpa using h⟩

/-- The digits before a point: a zero comes first only if it stands alone. -/
def IsWhole (digits : List Char) : Prop :=
  IsRun digits ∧ (digits.head? = some '0' → digits.length = 1)

/-- The parts of a numeral without its sign. An exponent has a sign of its own. -/
structure Numeral where
  whole : List Char
  fraction : Option (List Char) := none
  exponent : Option (Bool × List Char) := none

namespace Numeral

def fractionText : Option (List Char) → List Char
  | none => []
  | some digits => '.' :: digits

def exponentText : Option (Bool × List Char) → List Char
  | none => []
  | some (negative, digits) => 'e' :: (if negative then '-' else '+') :: digits

def exponentValue (exponent : Option (Bool × List Char)) : Option Int :=
  exponent.map fun (negative, digits) =>
    let value : Nat := digits.foldl (fun value digit => value * 10 + digitValue digit) 0
    if negative then -value else value

def text (numeral : Numeral) : List Char :=
  numeral.whole ++ (fractionText numeral.fraction ++ exponentText numeral.exponent)

structure Valid (numeral : Numeral) : Prop where
  whole : IsWhole numeral.whole
  fraction : ∀ digits ∈ numeral.fraction, IsRun digits
  exponent : ∀ part ∈ numeral.exponent, IsRun part.2

end Numeral

/-- A text that does not go on with a character of a numeral. -/
def EndsNumeral (rest : List Char) : Prop :=
  ∀ c ∈ rest.head?, isDigit c = false ∧ c ≠ '.' ∧ isExponentMark c = false

theorem takeWhile_run {digits rest : List Char} (h : IsRun digits)
    (hrest : ∀ c ∈ rest.head?, isDigit c = false) :
    (digits ++ rest).takeWhile isDigit = digits ∧ (digits ++ rest).dropWhile isDigit = rest :=
  takeWhile_append_of_stops h.2 hrest

/-! ## Reading a numeral -/

theorem readWhole_append {digits rest : List Char} (h : IsWhole digits)
    (hrest : ∀ c ∈ rest.head?, isDigit c = false) :
    readWhole (digits ++ rest) = .ok (digits, rest) := by
  obtain ⟨htake, hdrop⟩ := takeWhile_run h.1 hrest
  have hne : digits.isEmpty = false := by simpa using h.1.1
  have hzero : ¬(digits.head? = some '0' ∧ digits.length ≠ 1) := fun hbad => hbad.2 (h.2 hbad.1)
  simp [readWhole, htake, hdrop, hne, hzero]

theorem readFraction_append {fraction : Option (List Char)} {rest : List Char}
    (h : ∀ digits ∈ fraction, IsRun digits)
    (hrest : ∀ c ∈ rest.head?, isDigit c = false ∧ c ≠ '.') :
    readFraction (Numeral.fractionText fraction ++ rest) = .ok (fraction, rest) := by
  cases fraction with
  | none =>
      rw [Numeral.fractionText, List.nil_append]
      unfold readFraction
      split
      · exact absurd rfl (hrest '.' rfl).2
      · rfl
  | some digits =>
      have hrun := h digits rfl
      obtain ⟨htake, hdrop⟩ := takeWhile_run hrun fun c member => (hrest c member).1
      have hne : digits.isEmpty = false := by simpa using hrun.1
      simp [Numeral.fractionText, readFraction, htake, hdrop, hne]

theorem readExponent_append {exponent : Option (Bool × List Char)} {rest : List Char}
    (h : ∀ part ∈ exponent, IsRun part.2)
    (hrest : ∀ c ∈ rest.head?, isDigit c = false ∧ isExponentMark c = false) :
    readExponent (Numeral.exponentText exponent ++ rest) =
      .ok (Numeral.exponentValue exponent, rest) := by
  cases exponent with
  | none =>
      cases rest with
      | nil => rfl
      | cons c rest => simp [Numeral.exponentText, Numeral.exponentValue, readExponent, hrest c rfl]
  | some part =>
      rcases part with ⟨negative, digits⟩
      have hrun := h _ rfl
      obtain ⟨htake, hdrop⟩ := takeWhile_run hrun fun c member => (hrest c member).1
      have hne : digits.isEmpty = false := by simpa using hrun.1
      have hmark : isExponentMark 'e' = true := by decide
      cases negative <;>
        simp [Numeral.exponentText, Numeral.exponentValue, readExponent, readSign, hmark, htake,
          hdrop, hne]

namespace Numeral

variable {numeral : Numeral} {rest : List Char}

/-- What follows the whole part does not go on with a digit. -/
theorem head_after_whole (hrest : EndsNumeral rest) :
    ∀ c ∈ (fractionText numeral.fraction ++ (exponentText numeral.exponent ++ rest)).head?,
      isDigit c = false := by
  intro c member
  cases hfraction : numeral.fraction with
  | some digits =>
      obtain rfl : '.' = c := by simpa [hfraction, fractionText] using member
      decide
  | none =>
      cases hexponent : numeral.exponent with
      | some part =>
          obtain rfl : 'e' = c := by
            simpa [hfraction, hexponent, fractionText, exponentText] using member
          decide
      | none =>
          have := hrest c (by simpa [hfraction, hexponent, fractionText, exponentText] using member)
          exact this.1

/-- What follows the fraction does not go on with a digit or a point. -/
theorem head_after_fraction (hrest : EndsNumeral rest) :
    ∀ c ∈ (exponentText numeral.exponent ++ rest).head?, isDigit c = false ∧ c ≠ '.' := by
  intro c member
  cases hexponent : numeral.exponent with
  | some part =>
      obtain rfl : 'e' = c := by simpa [hexponent, exponentText] using member
      decide
  | none =>
      have := hrest c (by simpa [hexponent, exponentText] using member)
      exact ⟨this.1, this.2.1⟩

/-- The three parts of a valid numeral are read one after another. -/
theorem read_parts (h : numeral.Valid) (hrest : EndsNumeral rest) :
    readWhole (numeral.text ++ rest) = .ok (numeral.whole,
        fractionText numeral.fraction ++ (exponentText numeral.exponent ++ rest)) ∧
      readFraction (fractionText numeral.fraction ++ (exponentText numeral.exponent ++ rest)) =
        .ok (numeral.fraction, exponentText numeral.exponent ++ rest) ∧
      readExponent (exponentText numeral.exponent ++ rest) =
        .ok (exponentValue numeral.exponent, rest) := by
  refine ⟨?_, readFraction_append h.fraction (head_after_fraction hrest),
    readExponent_append h.exponent fun c member => ?_⟩
  · rw [text, List.append_assoc, List.append_assoc]
    exact readWhole_append h.whole (head_after_whole hrest)
  · exact ⟨(hrest c member).1, (hrest c member).2.2⟩

theorem skipMagnitude_text (h : numeral.Valid) (hrest : EndsNumeral rest) :
    skipMagnitude (numeral.text ++ rest) = .ok rest := by
  obtain ⟨hwhole, hfraction, hexponent⟩ := read_parts h hrest
  simp only [skipMagnitude, hwhole, hfraction, hexponent, bind, Except.bind]
  rfl

theorem readMagnitude_text (negative : Bool) (h : numeral.Valid) (hrest : EndsNumeral rest) :
    readMagnitude negative (numeral.text ++ rest) =
      ofParts negative numeral.whole numeral.fraction (exponentValue numeral.exponent) := by
  obtain ⟨hwhole, hfraction, hexponent⟩ := read_parts h hrest
  simp only [readMagnitude, hwhole, hfraction, hexponent, bind, Except.bind]

end Numeral

end SchemaLink.Json
