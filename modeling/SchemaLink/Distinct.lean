/-! # First occurrences

Lists in which each item is kept where it first stands. -/

namespace SchemaLink

variable {α : Type u} [BEq α]

/-- Append an item unless it is there already. -/
def insertNew (items : List α) (item : α) : List α :=
  if items.contains item then items else items ++ [item]

/-- Append those of the new items that are not there yet, in order. -/
def insertAll (items new : List α) : List α := new.foldl insertNew items

/-- The first occurrence of every item, in order. -/
def distinct (items : List α) : List α := insertAll [] items

theorem mem_insertNew [LawfulBEq α] {items : List α} {item x : α} :
    x ∈ insertNew items item ↔ x ∈ items ∨ x = item := by
  unfold insertNew
  split
  · grind
  · simp

theorem nodup_insertNew [LawfulBEq α] {items : List α} {item : α} (h : items.Nodup) :
    (insertNew items item).Nodup := by
  unfold insertNew
  split
  · exact h
  · next absent =>
    rw [List.contains_iff_mem] at absent
    exact List.nodup_append.2 ⟨h, by simp, by grind⟩

end SchemaLink
