import SchemaLink.Proofs.Json.Numbers

/-! # Whole numbers

A whole number in range is written in digits and read back exactly. -/

namespace SchemaLink.Json

/-! ## Digits -/

theorem ofDigitChars_cons (digit : Char) (digits : List Char) (significand : Nat) :
    Nat.ofDigitChars 10 (digit :: digits) significand =
      Nat.ofDigitChars 10 digits (significand * 10 + digitValue digit) := by
  rw [Nat.ofDigitChars_cons, Nat.mul_comm 10, digitValue]

theorem le_ofDigitChars (digits : List Char) (significand : Nat) :
    significand ≤ Nat.ofDigitChars 10 digits significand := by
  induction digits generalizing significand with
  | nil => simp
  | cons digit digits ih =>
      rw [ofDigitChars_cons]
      have hrest := ih (significand * 10 + digitValue digit)
      omega

/-- Digits that make up a significand in range are all taken into it. -/
theorem accumulate_eq {digits : List Char} {significand : Nat}
    (h : Nat.ofDigitChars 10 digits significand ≤ greatestSignificand) :
    accumulate significand digits = (Nat.ofDigitChars 10 digits significand, []) := by
  induction digits generalizing significand with
  | nil => simp [accumulate]
  | cons digit digits ih =>
      rw [ofDigitChars_cons] at h ⊢
      have hnext := le_ofDigitChars digits (significand * 10 + digitValue digit)
      rw [accumulate, if_pos (hnext.trans h), ih h]

theorem readMagnitude_naturalText (negative : Bool) {n : Nat} (h : n ≤ greatestSignificand) :
    readMagnitude negative (Number.naturalText n) = .ok (wholeNumber negative n) := by
  have hvalid : (Numeral.mk (Number.naturalText n) none none).Valid :=
    ⟨Number.isWhole_naturalText n, nofun, nofun⟩
  have hend : EndsNumeral [] := nofun
  have hread := Numeral.readMagnitude_text negative hvalid hend
  have hdigits : Nat.ofDigitChars 10 (Number.naturalText n) 0 = n := Nat.ofDigitChars_ten_toDigits
  have haccumulate : accumulate 0 (Number.naturalText n) = (n, []) := by
    rw [accumulate_eq (hdigits.symm ▸ h), hdigits]
  simpa [Numeral.text, Numeral.fractionText, Numeral.exponentText, Numeral.exponentValue, ofParts,
    haccumulate] using hread

/-! ## Numbers that are read back -/

namespace Number

/-- A whole number in the range of those that are kept exactly. -/
def Whole : Number → Prop
  | integer value => -2 ^ 63 ≤ value ∧ value < 2 ^ 64
  | float _ => False

instance : DecidablePred Whole
  | integer value => inferInstanceAs (Decidable (-2 ^ 63 ≤ value ∧ value < 2 ^ 64))
  | float _ => inferInstanceAs (Decidable False)

theorem kept_of_whole {number : Number} (h : number.Whole) : number.kept = .ok number := by
  cases number with
  | float value => cases h
  | integer value =>
      obtain ⟨hleast, hgreatest⟩ := h
      have hrange : greatestSignificand = 2 ^ 64 - 1 := rfl
      by_cases hnegative : value < 0
      · have htext : (integer value).text = '-' :: naturalText value.natAbs := by
          rw [text, if_pos hnegative]
        have hwhole : wholeNumber true value.natAbs = integer value := by
          have hlimit : Nat.pow 2 63 = 2 ^ 63 := rfl
          have hzero : value.natAbs ≠ 0 := by omega
          have hmagnitude : ¬Nat.pow 2 63 < value.natAbs := by omega
          have hvalue : -(value.natAbs : Int) = value := by omega
          simp only [wholeNumber, hzero, hmagnitude, hvalue, decide_false, Bool.or_false,
            Bool.false_eq_true, if_true, if_false]
        rw [kept, htext]
        exact (readMagnitude_naturalText true (by omega)).trans (congrArg _ hwhole)
      · have htext : (integer value).text = naturalText value.toNat := by
          rw [text, if_neg hnegative]
        have hwhole : wholeNumber false value.toNat = integer value := by
          have hvalue : (value.toNat : Int) = value := by omega
          simp [wholeNumber, hvalue]
        rw [kept, htext]
        split
        · next hdigits =>
          have hminus : '-' ∈ naturalText value.toNat := by simp [hdigits]
          exact absurd (isDigit_of_mem_naturalText hminus) (by decide)
        · rw [readMagnitude_naturalText false (by omega), hwhole]

end Number

end SchemaLink.Json
