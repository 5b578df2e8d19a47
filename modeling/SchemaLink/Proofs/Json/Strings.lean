import Mathlib.Tactic.SplitIfs
import SchemaLink.Json.Printer
import SchemaLink.Json.Token

/-! # Written strings read back

What is written between quotes is read as the string it was written for, and
passed over to the same place where it is skipped. -/

namespace SchemaLink.Json

theorem hexDigit?_hexDigit {n : Nat} (h : n < 16) : hexDigit? (hexDigit n) = some n := by
  have hall : ∀ n : Fin 16, hexDigit? (hexDigit n) = some n.val := by decide
  exact hall ⟨n, h⟩

theorem readHex_hexDigits {a b c d : Nat} (ha : a < 16) (hb : b < 16) (hc : c < 16) (hd : d < 16)
    (rest : List Char) :
    readHex (hexDigit a :: hexDigit b :: hexDigit c :: hexDigit d :: rest) =
      .ok (((a * 16 + b) * 16 + c) * 16 + d, rest) := by
  simp [readHex, hexDigit?_hexDigit, ha, hb, hc, hd]

/-- A control character without a letter of its own is written by its number. -/
theorem readHex_control {c : Char} (h : c.toNat < 0x20) (rest : List Char) :
    readHex ('0' :: '0' :: hexDigit (c.toNat / 16) :: hexDigit (c.toNat % 16) :: rest) =
      .ok (c.toNat, rest) := by
  have hread := readHex_hexDigits (a := 0) (b := 0) (by decide) (by decide)
    (show c.toNat / 16 < 16 by omega) (show c.toNat % 16 < 16 by omega) rest
  have hnumber : ((0 * 16 + 0) * 16 + c.toNat / 16) * 16 + c.toNat % 16 = c.toNat := by omega
  rw [hnumber] at hread
  exact hread

theorem readEscape_control {c : Char} (h : c.toNat < 0x20) (rest : List Char) :
    readEscape ('u' :: '0' :: '0' :: hexDigit (c.toNat / 16) :: hexDigit (c.toNat % 16) :: rest) =
      .ok (c, rest) := by
  have hlow : isLowSurrogate c.toNat = false := by simp [isLowSurrogate]; omega
  have hhigh : isHighSurrogate c.toNat = false := by simp [isHighSurrogate]; omega
  simp [readEscape, readUnicode, readHex_control h, hlow, hhigh]

/-- How a character is written: by an escape of one letter, by its number, or as it is. -/
theorem escape_cases (c : Char) :
    (∃ letter, letter ≠ 'u' ∧ simpleEscape? letter = some c ∧ escape c = ['\\', letter]) ∨
    (c.toNat < 0x20 ∧ escape c =
      ['\\', 'u', '0', '0', hexDigit (c.toNat / 16), hexDigit (c.toNat % 16)]) ∨
    (c ≠ '"' ∧ c ≠ '\\' ∧ isControl c = false ∧ escape c = [c]) := by
  unfold escape
  split_ifs with h₁ h₂ h₃ h₄ h₅ h₆ h₇ h₈
  · exact .inl ⟨'"', by decide, by rw [h₁]; rfl, rfl⟩
  · exact .inl ⟨'\\', by decide, by rw [h₂]; rfl, rfl⟩
  · exact .inl ⟨'b', by decide, by rw [h₃]; rfl, rfl⟩
  · exact .inl ⟨'f', by decide, by rw [h₄]; rfl, rfl⟩
  · exact .inl ⟨'n', by decide, by rw [h₅]; rfl, rfl⟩
  · exact .inl ⟨'r', by decide, by rw [h₆]; rfl, rfl⟩
  · exact .inl ⟨'t', by decide, by rw [h₇]; rfl, rfl⟩
  · exact .inr (.inl ⟨h₈, rfl⟩)
  · exact .inr (.inr ⟨h₁, h₂, by simpa [isControl] using h₈, rfl⟩)

theorem readString_of_readEscape {rest after : List Char} {c : Char}
    (h : readEscape rest = .ok (c, after)) :
    readString ('\\' :: rest) = (readString after).map fun (cs, after) => (c :: cs, after) := by
  rw [readString]
  split
  · next hfault => rw [h] at hfault; cases hfault
  · next hread => rw [h] at hread; cases hread; rfl

theorem readString_escape (c : Char) (rest : List Char) :
    readString (escape c ++ rest) =
      (readString rest).map fun (cs, after) => (c :: cs, after) := by
  rcases escape_cases c with ⟨letter, hu, hletter, h⟩ | ⟨hcontrol, h⟩ | ⟨hquote, hslash, hplain, h⟩
  · rw [h]
    exact readString_of_readEscape (by simp [readEscape, hletter])
  · rw [h]
    exact readString_of_readEscape (readEscape_control hcontrol rest)
  · rw [h, List.cons_append, List.nil_append, readString]
    · simp [hplain]
    · exact hquote
    · exact hslash

theorem readString_quoted (cs rest : List Char) :
    readString (cs.flatMap escape ++ '"' :: rest) = .ok (cs, rest) := by
  induction cs with
  | nil => simp [readString]
  | cons c cs ih =>
      rw [List.flatMap_cons, List.append_assoc, readString_escape, ih]
      rfl

theorem skipString_of_skipEscape {rest after : List Char} (h : skipEscape rest = .ok after) :
    skipString ('\\' :: rest) = skipString after := by
  rw [skipString]
  split
  · next hfault => rw [h] at hfault; cases hfault
  · next hskip => rw [h] at hskip; cases hskip; rfl

theorem skipString_escape (c : Char) (rest : List Char) :
    skipString (escape c ++ rest) = skipString rest := by
  rcases escape_cases c with ⟨letter, hu, hletter, h⟩ | ⟨hcontrol, h⟩ | ⟨hquote, hslash, hplain, h⟩
  · rw [h]
    exact skipString_of_skipEscape (by simp [skipEscape, hletter])
  · rw [h]
    exact skipString_of_skipEscape (by simp [skipEscape, readHex_control hcontrol, Except.map])
  · rw [h, List.cons_append, List.nil_append, skipString]
    · simp [hplain]
    · exact hquote
    · exact hslash

theorem skipString_quoted (cs rest : List Char) :
    skipString (cs.flatMap escape ++ '"' :: rest) = .ok rest := by
  induction cs with
  | nil => simp [skipString]
  | cons c cs ih => rw [List.flatMap_cons, List.append_assoc, skipString_escape, ih]

/-- A written string is one token, which holds the string. -/
theorem stringToken_quoted (text : String) (rest : List Char) :
    stringToken (text.toList.flatMap escape ++ '"' :: rest) =
      (.string (.ok text) (.ok ()), some rest) := by
  simp [stringToken, readString_quoted, skipString_quoted, Except.map]

end SchemaLink.Json
