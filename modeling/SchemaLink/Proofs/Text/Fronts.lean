import Mathlib.Data.List.Infix
import Mathlib.Data.List.TakeWhile
import Mathlib.Data.String.Basic

/-! # Fronts of texts

A run of characters at the front of a text ends where the text does not go on with it. Texts with
the same front are told apart by their lengths. -/

namespace SchemaLink

/-! ## Runs -/

section Runs

variable {p : Char → Bool} {run rest : List Char}

theorem takeWhile_append_of_stops (hrun : ∀ c ∈ run, p c = true)
    (hstop : ∀ c ∈ rest.head?, p c = false) :
    (run ++ rest).takeWhile p = run ∧ (run ++ rest).dropWhile p = rest := by
  rw [List.takeWhile_append_of_pos hrun, List.dropWhile_append_of_pos hrun]
  cases rest with
  | nil => simp
  | cons c rest => simp [hstop c rfl]

theorem stops_dropWhile (cs : List Char) : ∀ c ∈ (cs.dropWhile p).head?, p c = false := by
  intro c hc
  have hstop := List.head?_dropWhile_not p cs
  rwa [Option.mem_def.1 hc] at hstop

end Runs

/-! ## Texts that start alike -/

theorem exists_eq_append {part text : String} (h : part.toList <+: text.toList) :
    ∃ rest, text = part ++ rest := by
  obtain ⟨rest, hrest⟩ := h
  refine ⟨String.ofList rest, ?_⟩
  rw [← String.toList_inj, String.toList_append, String.toList_ofList, hrest]

/-- Texts that start with the same are ordered by length in bytes as they are by length. -/
theorem prefix_of_utf8ByteSize_le {name other : String} {text : List Char}
    (hname : name.toList <+: text) (hother : other.toList <+: text)
    (hle : other.utf8ByteSize ≤ name.utf8ByteSize) : other.toList <+: name.toList := by
  rcases List.prefix_or_prefix_of_prefix hother hname with hshort | hlong
  · exact hshort
  · obtain ⟨rest, rfl⟩ := exists_eq_append hlong
    rw [String.utf8ByteSize_append] at hle
    have hempty : rest = "" := String.utf8ByteSize_eq_zero_iff.1 (by omega)
    rw [hempty, String.append_empty]

theorem utf8ByteSize_le_of_prefix {part text : String} (h : part.toList <+: text.toList) :
    part.utf8ByteSize ≤ text.utf8ByteSize := by
  obtain ⟨rest, rfl⟩ := exists_eq_append h
  rw [String.utf8ByteSize_append]
  exact Nat.le_add_right _ _

/-- What comes first in a text can be told by how many bytes it has. -/
theorem append_inj_of_utf8ByteSize_eq {front other back rest : String}
    (h : front ++ back = other ++ rest) (hsize : front.utf8ByteSize = other.utf8ByteSize) :
    front = other ∧ back = rest := by
  have hfront : front.toList <+: (front ++ back).toList := by simp
  have hother : other.toList <+: (front ++ back).toList := by simp [h]
  have hle := (prefix_of_utf8ByteSize_le hfront hother hsize.ge).length_le
  have heq := (prefix_of_utf8ByteSize_le hother hfront hsize.le).eq_of_length_le hle
  obtain rfl := String.toList_inj.1 heq
  exact ⟨rfl, (String.append_right_inj _).1 h⟩

end SchemaLink
