import Mathlib.Data.List.Basic
import SchemaLink.Text.Pieces

/-! # Pieces of text

Text without the mark is a single piece. A mark between two texts keeps their pieces apart. Of
texts that are joined, the last stands at the end. -/

namespace SchemaLink.Text

variable {mark : Char} {cs front : List Char}

theorem cutAt_of_not_mem (h : mark ∉ cs) : cutAt mark cs = [cs] := by
  induction cs with
  | nil => rfl
  | cons c cs ih =>
      rw [List.mem_cons, not_or] at h
      rcases h with ⟨hc, hcs⟩
      rw [cutAt, if_neg (Ne.symm hc), ih hcs]

theorem cutAt_ne_nil (mark : Char) (cs : List Char) : cutAt mark cs ≠ [] := by
  cases cs with
  | nil => simp [cutAt]
  | cons c cs =>
      rw [cutAt]
      split
      · simp
      · split <;> simp

theorem cutAt_append_cons (mark : Char) (front rest : List Char) :
    cutAt mark (front ++ mark :: rest) = cutAt mark front ++ cutAt mark rest := by
  induction front with
  | nil => simp [cutAt]
  | cons c front ih =>
      rw [List.cons_append, cutAt, cutAt]
      by_cases hc : c = mark
      · rw [if_pos hc, if_pos hc, ih, List.cons_append]
      · rw [if_neg hc, if_neg hc, ih]
        cases hcut : cutAt mark front with
        | nil => exact absurd hcut (cutAt_ne_nil mark front)
        | cons piece pieces => rfl

theorem cutAt_append (h : mark ∉ front) (rest : List Char) :
    cutAt mark (front ++ mark :: rest) = front :: cutAt mark rest := by
  rw [cutAt_append_cons, cutAt_of_not_mem h, List.singleton_append]

/-- There is one piece more than there are marks. -/
theorem length_cutAt (mark : Char) (cs : List Char) :
    (cutAt mark cs).length = cs.count mark + 1 := by
  induction cs with
  | nil => rfl
  | cons c cs ih =>
      rw [cutAt]
      by_cases hc : c = mark
      · rw [if_pos hc, List.length_cons, ih, hc, List.count_cons_self]
      · rw [if_neg hc, List.count_cons_of_ne hc, ← ih]
        split
        · next hnil => rw [hnil] at ih; cases ih
        · next piece pieces hcut => rw [hcut]; rfl

theorem pieces_of_not_mem {text : String} (h : mark ∉ text.toList) :
    pieces mark text = [text] := by
  rw [pieces, cutAt_of_not_mem h, List.map_singleton, String.ofList_toList]

theorem pieces_append {text first second : String}
    (h : text.toList = first.toList ++ mark :: second.toList) :
    pieces mark text = pieces mark first ++ pieces mark second := by
  rw [pieces, h, cutAt_append_cons, List.map_append]
  rfl

theorem exists_front_intercalate (separator : String) (texts : List String) :
    ∃ front, ∀ last, separator.intercalate (texts ++ [last]) = front ++ last := by
  by_cases h : texts = []
  · exact ⟨"", by simp [h]⟩
  · refine ⟨separator.intercalate texts ++ separator, fun last => ?_⟩
    rw [String.intercalate_append_of_ne_nil h (List.cons_ne_nil _ _), String.intercalate_singleton]

end SchemaLink.Text
