import Mathlib.Tactic.IntervalCases
import SchemaLink.Proofs.Json.Numerals

/-! # Written numbers are numerals -/

namespace SchemaLink

/-! ## Shortest decimals -/

namespace Decimal

theorem roundQuotient_pos {num den : Nat} (h : num / den ≠ 0) :
    0 < Binary64.roundQuotient num den := by
  simp only [Binary64.roundQuotient]
  split
  · exact Nat.pos_of_ne_zero h
  · exact Nat.succ_pos _

theorem nearest?_pos {interval : Interval} {n : Nat} (h : interval.nearest? = some n) : 0 < n := by
  simp only [Interval.nearest?] at h
  split at h
  · next hfloor _ =>
      simp only [Bool.and_eq_true, bne_iff_ne] at hfloor
      obtain rfl := Option.some.inj h
      exact roundQuotient_pos hfloor.1
  · next hfloor _ =>
      simp only [Bool.and_eq_true, bne_iff_ne] at hfloor
      obtain rfl := Option.some.inj h
      exact Nat.pos_of_ne_zero hfloor.1
  · obtain rfl := Option.some.inj h
    exact Nat.succ_pos _
  · cases h

theorem search_pos {interval : Interval} {fuel : Nat} {power : Int} {decimal : Decimal}
    (h : search interval fuel power = some decimal) : 0 < decimal.digits := by
  induction fuel generalizing power with
  | zero => cases h
  | succ fuel ih =>
      rw [search] at h
      split at h
      · next digits hdigits =>
          obtain rfl := Option.some.inj h
          exact nearest?_pos hdigits
      · exact ih h

theorem trim_pos {fuel : Nat} {decimal : Decimal} (h : 0 < decimal.digits) :
    0 < (trim fuel decimal).digits := by
  induction fuel generalizing decimal with
  | zero => exact h
  | succ fuel ih =>
      rw [trim]
      split
      · next hzero =>
          simp only [Bool.and_eq_true, decide_eq_true_eq, bne_iff_ne] at hzero
          exact ih (by simp only; omega)
      · exact h

/-- The shortest decimal is a plain zero if it is zero at all. -/
theorem shortest_power (x : Binary64) (h : x.shortest.digits = 0) : x.shortest.power = 0 := by
  simp only [Binary64.shortest] at h ⊢
  generalize hfound : search (.around x) 17 _ = found at h ⊢
  cases found with
  | none => rfl
  | some decimal =>
      have hpos : 0 < (trim 17 decimal).digits := trim_pos (search_pos hfound)
      exact absurd h (by simp; omega)

end Decimal

namespace Json

/-! ## Decimals as they are written -/

namespace Number

theorem isDigit_of_mem_naturalText {n : Nat} {c : Char} (h : c ∈ naturalText n) :
    isDigit c = true := by
  have hdigit := Nat.isDigit_of_mem_toDigits (by decide) (by decide) h
  simpa [isDigit, Char.isDigit, Char.le_def, UInt32.le_iff_toNat_le] using hdigit

theorem isRun_naturalText (n : Nat) : IsRun (naturalText n) :=
  ⟨Nat.toDigits_ne_nil, fun _ => isDigit_of_mem_naturalText⟩

theorem head_naturalText {n : Nat} (h : 0 < n) : (naturalText n).head? ≠ some '0' := by
  induction n using Nat.strong_induction_on with
  | _ n ih =>
      rw [naturalText]
      by_cases hn : n < 10
      · rw [Nat.toDigits_of_lt_base hn]
        interval_cases n <;> decide
      · rw [Nat.toDigits_of_base_le (by decide) (by omega),
          List.head?_append, Option.or_of_isSome (by simp [Nat.toDigits_ne_nil])]
        exact ih (n / 10) (by omega) (by omega)

theorem isWhole_naturalText (n : Nat) : IsWhole (naturalText n) := by
  refine ⟨isRun_naturalText n, ?_⟩
  intro hzero
  rcases Nat.eq_zero_or_pos n with rfl | hpos
  · rfl
  · exact absurd hzero (head_naturalText hpos)

theorem isDigit_of_mem_zeros {n : Nat} {c : Char} (h : c ∈ zeros n) : isDigit c = true := by
  rw [List.eq_of_mem_replicate h]
  decide

theorem exponentText_eq (exponent : Int) :
    'e' :: exponentText exponent =
      Numeral.exponentText (some (decide (exponent < 0), naturalText exponent.natAbs)) := by
  by_cases h : exponent < 0 <;> simp [exponentText, Numeral.exponentText, h]

theorem isWhole_append {digits more : List Char} (h : IsRun digits)
    (hhead : digits.head? ≠ some '0') (hmore : ∀ c ∈ more, isDigit c = true) :
    IsWhole (digits ++ more) := by
  refine ⟨⟨by simp [h.1], fun c member => ?_⟩, fun hzero => ?_⟩
  · rcases List.mem_append.1 member with member | member
    · exact h.2 c member
    · exact hmore c member
  · rw [List.head?_append, Option.or_of_isSome (by simpa using h.1)] at hzero
    exact absurd hzero hhead

/-- Digits with the point after the first of them, and an exponent. -/
theorem exponential_eq (digits : List Char) (exponent : Int) :
    IsRun digits → ∃ numeral : Numeral, numeral.Valid ∧
      (match digits with
        | [] => []
        | [digit] => digit :: 'e' :: exponentText exponent
        | digit :: fraction => digit :: '.' :: fraction ++ 'e' :: exponentText exponent) =
        numeral.text := by
  intro h
  have hexponent : ∀ part ∈ some (decide (exponent < 0), naturalText exponent.natAbs),
      IsRun part.2 := by
    rintro part ⟨⟩
    exact isRun_naturalText _
  have hfirst : ∀ digit ∈ digits, IsWhole [digit] := fun digit member =>
    ⟨⟨by simp, by simpa using h.2 digit member⟩, fun _ => rfl⟩
  match digits with
  | [] => exact absurd rfl h.1
  | [digit] =>
      refine ⟨⟨[digit], none, some (decide (exponent < 0), naturalText exponent.natAbs)⟩,
        ⟨hfirst digit (by simp), by simp, hexponent⟩, ?_⟩
      simp only [exponentText_eq]
      rfl
  | digit :: next :: fraction =>
      refine ⟨⟨[digit], some (next :: fraction),
        some (decide (exponent < 0), naturalText exponent.natAbs)⟩,
        ⟨hfirst digit (by simp), ?_, hexponent⟩, ?_⟩
      · rintro part ⟨⟩
        exact ⟨by simp, fun c member => h.2 c (List.mem_cons_of_mem _ member)⟩
      · simp only [exponentText_eq]
        rfl

/-- A number with a point among or around its digits. -/
theorem positional_valid {whole fraction : List Char} (hwhole : IsWhole whole)
    (hfraction : IsRun fraction) : (Numeral.mk whole (some fraction) none).Valid :=
  ⟨hwhole, by rintro part ⟨⟩; exact hfraction, by rintro part ⟨⟩⟩

/-- A positive decimal, and also a plain zero, is written as a numeral. -/
theorem decimalText_eq (decimal : Decimal) (h : decimal.digits = 0 → decimal.power = 0) :
    ∃ numeral : Numeral, numeral.Valid ∧ decimalText decimal = numeral.text := by
  have hrun := isRun_naturalText decimal.digits
  have hwhole := isWhole_naturalText decimal.digits
  have hhead : decimal.power ≠ 0 → (naturalText decimal.digits).head? ≠ some '0' := fun hpower =>
    head_naturalText (Nat.pos_of_ne_zero fun hzero => hpower (h hzero))
  simp only [decimalText]
  generalize naturalText decimal.digits = digits at *
  have hlength : 0 < digits.length := List.length_pos_iff.2 hrun.1
  split_ifs with hfar hsmall hpoint
  · exact exponential_eq digits _ hrun
  · refine ⟨⟨['0'], some (zeros (-(decimal.power + digits.length - 1) - 1).toNat ++ digits), none⟩,
      positional_valid ?_ ?_, by simp [Numeral.text, Numeral.fractionText, Numeral.exponentText]⟩
    · exact ⟨isRun_singleton rfl, fun _ => rfl⟩
    · refine ⟨by simp [hrun.1], ?_⟩
      intro c member
      rcases List.mem_append.1 member with member | member
      · exact isDigit_of_mem_zeros member
      · exact hrun.2 c member
  · generalize hk : (decimal.power + digits.length - 1 + 1).toNat = k
    have hpos : 0 < k := by omega
    have hless : k < digits.length := by omega
    refine ⟨⟨digits.take k, some (digits.drop k), none⟩, positional_valid ?_ ?_, by
      simp [Numeral.text, Numeral.fractionText, Numeral.exponentText]⟩
    · refine ⟨⟨by simp [hrun.1]; omega, fun c member => hrun.2 c (List.mem_of_mem_take member)⟩,
        fun hzero => ?_⟩
      rw [List.head?_take, if_neg (by omega)] at hzero
      exact absurd hzero (hhead (by omega))
    · exact ⟨by simp; omega, fun c member => hrun.2 c (List.mem_of_mem_drop member)⟩
  · refine ⟨⟨digits ++ zeros decimal.power.toNat, some ['0'], none⟩, positional_valid ?_ ?_, by
      simp [Numeral.text, Numeral.fractionText, Numeral.exponentText]⟩
    · by_cases hpower : decimal.power = 0
      · simpa [hpower, zeros] using hwhole
      · exact isWhole_append hrun (hhead hpower) fun c => isDigit_of_mem_zeros
    · exact isRun_singleton rfl

/-! ## The token of a number -/

/-- The text of a number is a numeral, perhaps after a minus sign. -/
theorem text_eq (number : Number) :
    ∃ (negative : Bool) (numeral : Numeral), numeral.Valid ∧
      number.text = if negative then '-' :: numeral.text else numeral.text := by
  have hnatural (n : Nat) : (Numeral.mk (naturalText n) none none).Valid :=
    ⟨isWhole_naturalText n, by rintro part ⟨⟩, by rintro part ⟨⟩⟩
  cases number with
  | integer value =>
      by_cases hnegative : value < 0
      · exact ⟨true, _, hnatural value.natAbs, by
          simp [text, hnegative, Numeral.text, Numeral.fractionText, Numeral.exponentText]⟩
      · exact ⟨false, _, hnatural value.toNat, by
          simp [text, hnegative, Numeral.text, Numeral.fractionText, Numeral.exponentText]⟩
  | float value =>
      refine ⟨value.negative, ?_⟩
      by_cases hzero : value.mantissa = 0
      · refine ⟨⟨['0'], some ['0'], none⟩, positional_valid (isWhole_naturalText 0)
          (isRun_singleton rfl), ?_⟩
        simp [text, hzero, Numeral.text, Numeral.fractionText, Numeral.exponentText]
      · obtain ⟨numeral, hvalid, htext⟩ :=
          decimalText_eq value.shortest (Decimal.shortest_power value)
        exact ⟨numeral, hvalid, by simp [text, hzero, htext]⟩

/-- What a number is read as where it is kept. -/
def kept (number : Number) : Except Fault Number :=
  match number.text with
  | '-' :: magnitude => readMagnitude true magnitude
  | magnitude => readMagnitude false magnitude

theorem isDigit_of_head_text {numeral : Numeral} (h : numeral.Valid) :
    ∃ c rest, numeral.text = c :: rest ∧ isDigit c = true := by
  obtain ⟨⟨hne, hdigits⟩, -⟩ := h.whole
  cases hwhole : numeral.whole with
  | nil => exact absurd hwhole hne
  | cons c rest =>
      exact ⟨c, _, by rw [Numeral.text, hwhole, List.cons_append], hdigits c (by simp [hwhole])⟩

end Number

theorem not_isBlank_of_isDigit {c : Char} (h : isDigit c = true) : isBlank c = false := by
  rw [Bool.eq_false_iff]
  intro hblank
  simp only [isBlank, Bool.or_eq_true, beq_iff_eq] at hblank
  rcases hblank with ((rfl | rfl) | rfl) | rfl <;> exact absurd h (by decide)

theorem readToken_of_isDigit {c : Char} (h : isDigit c = true) (rest : List Char) :
    readToken c rest = numberToken false (c :: rest) := by
  unfold readToken
  split <;> first | (exact absurd h (by decide)) | simp only [h, if_true]

theorem numberToken_text (negative : Bool) {numeral : Numeral} {rest : List Char}
    (h : numeral.Valid) (hrest : EndsNumeral rest) :
    numberToken negative (numeral.text ++ rest) =
      (.number (readMagnitude negative numeral.text) (.ok ()), some rest) := by
  have hkept : readMagnitude negative numeral.text =
      readMagnitude negative (numeral.text ++ rest) := by
    have hnil : EndsNumeral [] := by simp [EndsNumeral]
    rw [Numeral.readMagnitude_text negative h hrest,
      ← Numeral.readMagnitude_text negative h hnil, List.append_nil]
  rw [numberToken, Numeral.skipMagnitude_text h hrest, hkept]

/-- A written number is one token. -/
theorem readToken_number (number : Number) {rest : List Char} (hrest : EndsNumeral rest) :
    ∃ c tail, number.text = c :: tail ∧ isBlank c = false ∧
      readToken c (tail ++ rest) = (.number number.kept (.ok ()), some rest) := by
  obtain ⟨negative, numeral, hvalid, htext⟩ := number.text_eq
  obtain ⟨c, tail, hnumeral, hdigit⟩ := Number.isDigit_of_head_text hvalid
  cases negative with
  | true =>
      refine ⟨'-', numeral.text, by simpa using htext, rfl, ?_⟩
      have hkept : number.kept = readMagnitude true numeral.text := by
        simp [Number.kept, htext]
      rw [hkept]
      exact numberToken_text true hvalid hrest
  | false =>
      have hminus : c ≠ '-' := by
        rintro rfl
        exact absurd hdigit (by decide)
      have hkept : number.kept = readMagnitude false numeral.text := by
        rw [Number.kept, htext]
        simp only [Bool.false_eq_true, if_false, hnumeral]
        split
        · next heq => exact absurd (List.cons.inj heq).1 hminus
        · rfl
      refine ⟨c, tail, by simpa [hnumeral] using htext, ?_, ?_⟩
      · exact not_isBlank_of_isDigit hdigit
      · rw [readToken_of_isDigit hdigit, hkept, ← List.cons_append, ← hnumeral]
        exact numberToken_text false hvalid hrest

end Json

end SchemaLink
