import Mathlib.Data.List.Induction
import SchemaLink.Distinct

/-! # Lists of first occurrences

Adding items one by one unless they are there gives the first occurrences that the
whole list has. -/

namespace SchemaLink

variable {α : Type u} {β : Type v} [BEq α] [LawfulBEq α]

theorem insertAll_eq (items new : List α) :
    insertAll items new = items ++ (new.removeAll items).eraseDups := by
  induction new generalizing items with
  | nil => simp [insertAll, List.removeAll]
  | cons x new ih =>
      have hstep : insertAll items (x :: new) = insertAll (insertNew items x) new := rfl
      rw [hstep, ih]
      by_cases h : x ∈ items
      · simp [insertNew, h, List.removeAll]
      · have hremove : new.removeAll (items ++ [x]) =
            (new.removeAll items).filter fun y => !y == x := by
          simp only [List.removeAll, List.filter_filter]
          apply List.filter_congr
          intro y _
          by_cases hxy : y = x <;> simp [hxy]
        simp only [insertNew, List.contains_iff_mem, h, if_false, hremove, List.append_assoc]
        simp [List.removeAll, h, List.eraseDups_cons]

theorem distinct_eq_eraseDups (items : List α) : distinct items = items.eraseDups := by
  rw [distinct, insertAll_eq, List.nil_append, List.removeAll_nil]

/-- Apart from what it is built up from, a list of first occurrences has no repetition. -/
theorem nodup_insertAll {items : List α} (new : List α) (h : items.Nodup) :
    (insertAll items new).Nodup := by
  induction new generalizing items with
  | nil => exact h
  | cons x new ih => exact ih (nodup_insertNew h)

theorem nodup_distinct (items : List α) : (distinct items).Nodup :=
  nodup_insertAll items .nil

/-- Where nothing is repeated, everything is appended. -/
theorem insertAll_of_nodup {items new : List α} (h : (items ++ new).Nodup) :
    insertAll items new = items ++ new := by
  induction new generalizing items with
  | nil => simp [insertAll]
  | cons x new ih =>
      have habsent : x ∉ items := fun hx =>
        (List.nodup_append.1 h).2.2 x hx x (by simp) rfl
      have hhead : insertNew items x = items ++ [x] := by simp [insertNew, habsent]
      have hstep : insertAll items (x :: new) = insertAll (insertNew items x) new := rfl
      rw [hstep, hhead, ih (by simpa using h)]
      simp

theorem distinct_of_nodup {items : List α} (h : items.Nodup) : distinct items = items :=
  insertAll_of_nodup h

theorem mem_insertAll {items new : List α} {x : α} :
    x ∈ insertAll items new ↔ x ∈ items ∨ x ∈ new := by
  induction new generalizing items with
  | nil => simp [insertAll]
  | cons y new ih =>
      have hstep : insertAll items (y :: new) = insertAll (insertNew items y) new := rfl
      rw [hstep, ih, mem_insertNew, List.mem_cons, or_assoc]

theorem mem_distinct {items : List α} {x : α} : x ∈ distinct items ↔ x ∈ items := by
  rw [distinct, mem_insertAll]
  simp

theorem distinct_eq_nil_iff {items : List α} : distinct items = [] ↔ items = [] := by
  simp only [List.eq_nil_iff_forall_not_mem, mem_distinct]

omit [LawfulBEq α] in
theorem insertAll_append (items new more : List α) :
    insertAll items (new ++ more) = insertAll (insertAll items new) more :=
  List.foldl_append

/-- Where everything is there already, nothing is appended. -/
theorem insertAll_of_subset {items new : List α} (h : new ⊆ items) :
    insertAll items new = items := by
  induction new with
  | nil => rfl
  | cons x new ih =>
      obtain ⟨hx, hnew⟩ := List.cons_subset.1 h
      have hhead : insertNew items x = items := by simp [insertNew, hx]
      have hstep : insertAll items (x :: new) = insertAll (insertNew items x) new := rfl
      rw [hstep, hhead, ih hnew]

theorem mem_dropLast_of_mem_dropLast_distinct {items : List α} {x : α}
    (h : x ∈ (distinct items).dropLast) : x ∈ items.dropLast := by
  cases items using List.reverseRecOn with
  | nil => cases h
  | append_singleton front last =>
      have hdistinct : distinct (front ++ [last]) = insertNew (distinct front) last :=
        insertAll_append [] front [last]
      rw [hdistinct, insertNew] at h
      rw [List.dropLast_concat]
      split at h
      · exact mem_distinct.1 ((List.dropLast_subset _) h)
      · rw [List.dropLast_concat] at h
        exact mem_distinct.1 h

/-- Items that come in two parts with nothing in common are made distinct part by part. -/
theorem distinct_append_of_disjoint {items more : List α} (h : items.Disjoint more) :
    distinct (items ++ more) = distinct items ++ distinct more := by
  have hnew : more.removeAll (distinct items) = more := by
    rw [List.removeAll, List.filter_eq_self]
    intro x hx
    simpa [mem_distinct] using fun hmem => h hmem hx
  calc distinct (items ++ more)
      = insertAll (distinct items) more := insertAll_append [] items more
    _ = distinct items ++ distinct more := by
        rw [insertAll_eq, hnew, distinct_eq_eraseDups more]

theorem length_distinct_append (items : List α) (x : α) :
    (distinct (items ++ [x])).length =
      if x ∈ items then (distinct items).length else (distinct items).length + 1 := by
  have hdistinct : distinct (items ++ [x]) = insertNew (distinct items) x :=
    insertAll_append [] items [x]
  rw [hdistinct]
  by_cases hx : x ∈ items <;> simp [insertNew, mem_distinct, hx]

theorem length_distinct_le (items : List α) : (distinct items).length ≤ items.length := by
  induction items using List.reverseRecOn with
  | nil => exact Nat.le_refl 0
  | append_singleton items x ih =>
      rw [length_distinct_append, List.length_append, List.length_singleton]
      split <;> omega

/-- Nothing is left out just if nothing is repeated. -/
theorem length_distinct_eq_iff {items : List α} :
    (distinct items).length = items.length ↔ items.Nodup := by
  constructor
  · intro h
    induction items using List.reverseRecOn with
    | nil => exact .nil
    | append_singleton items x ih =>
        have hle := length_distinct_le items
        rw [length_distinct_append, List.length_append, List.length_singleton] at h
        split at h
        · omega
        · next hx =>
          refine List.nodup_append.2 ⟨ih (by omega), by simp, fun y hy z hz => ?_⟩
          obtain rfl := List.mem_singleton.1 hz
          rintro rfl
          exact hx hy
  · intro h
    rw [distinct_of_nodup h]

theorem length_distinct_cons (x : α) (items : List α) :
    (distinct (x :: items)).length =
      (distinct items).length + if x ∈ items then 0 else 1 := by
  by_cases hx : x ∈ items
  · have hperm : (distinct (x :: items)).Perm (distinct items) := by
      refine (List.perm_ext_iff_of_nodup (nodup_distinct _) (nodup_distinct _)).2 fun y => ?_
      rw [mem_distinct, mem_distinct, List.mem_cons, or_iff_right_of_imp]
      rintro rfl
      exact hx
    rw [hperm.length_eq, if_pos hx, Nat.add_zero]
  · have hdisjoint : [x].Disjoint items := fun y hy hmem => hx (List.mem_singleton.1 hy ▸ hmem)
    have hsplit : distinct (x :: items) = distinct [x] ++ distinct items :=
      distinct_append_of_disjoint hdisjoint
    rw [hsplit, if_neg hx, List.length_append, Nat.add_comm]
    rfl

theorem filter_insertAll (items new : List α) (p : α → Bool) :
    (insertAll items new).filter p = insertAll (items.filter p) (new.filter p) := by
  induction new generalizing items with
  | nil => rfl
  | cons x new ih =>
      have hstep : insertAll items (x :: new) = insertAll (insertNew items x) new := rfl
      rw [hstep, ih]
      by_cases hp : p x = true
      · have hhead : (insertNew items x).filter p = insertNew (items.filter p) x := by
          by_cases hx : x ∈ items <;> simp [insertNew, hx, hp]
        rw [hhead, List.filter_cons_of_pos hp]
        rfl
      · have hhead : (insertNew items x).filter p = items.filter p := by
          by_cases hx : x ∈ items <;> simp [insertNew, hx, hp]
        rw [hhead, List.filter_cons_of_neg hp]

theorem filter_distinct (items : List α) (p : α → Bool) :
    (distinct items).filter p = distinct (items.filter p) := filter_insertAll [] items p

variable [BEq β] [LawfulBEq β]

/-- What comes of repeated items is repeated itself, so they can be left out beforehand. -/
theorem distinct_flatMap_distinct (items : List α) (f : α → List β) :
    distinct ((distinct items).flatMap f) = distinct (items.flatMap f) := by
  induction items using List.reverseRecOn with
  | nil => rfl
  | append_singleton items x ih =>
      have hitems : distinct (items ++ [x]) = insertNew (distinct items) x :=
        insertAll_append [] items [x]
      have happend (texts : List β) : distinct (texts ++ f x) = insertAll (distinct texts) (f x) :=
        insertAll_append [] texts (f x)
      rw [hitems, List.flatMap_append, List.flatMap_singleton, happend, ← ih]
      by_cases hx : x ∈ items
      · have hknown : insertNew (distinct items) x = distinct items := by
          simp [insertNew, mem_distinct, hx]
        have hsubset : f x ⊆ distinct ((distinct items).flatMap f) := fun y hy =>
          mem_distinct.2 (List.mem_flatMap.2 ⟨x, mem_distinct.2 hx, hy⟩)
        rw [hknown, insertAll_of_subset hsubset]
      · have hnew : insertNew (distinct items) x = distinct items ++ [x] := by
          simp [insertNew, mem_distinct, hx]
        rw [hnew, List.flatMap_append, List.flatMap_singleton, happend]

/-- Items that are added may be made distinct beforehand. -/
theorem insertAll_distinct (items new : List α) :
    insertAll items (distinct new) = insertAll items new := by
  induction new using List.reverseRecOn with
  | nil => rfl
  | append_singleton new x ih =>
      have hdistinct : distinct (new ++ [x]) = insertNew (distinct new) x :=
        insertAll_append [] new [x]
      have hadded : insertAll items (new ++ [x]) = insertNew (insertAll items new) x :=
        insertAll_append items new [x]
      rw [hdistinct, hadded, ← ih]
      by_cases hx : x ∈ new
      · simp [insertNew, mem_insertAll, mem_distinct, hx]
      · have hnew : insertNew (distinct new) x = distinct new ++ [x] := by
          simp [insertNew, mem_distinct, hx]
        rw [hnew, insertAll_append]
        rfl

theorem distinct_append_congr {items items' more more' : List α}
    (h : distinct items = distinct items') (h' : distinct more = distinct more') :
    distinct (items ++ more) = distinct (items' ++ more') := by
  calc distinct (items ++ more)
      = insertAll (distinct items) (distinct more) := by
        rw [insertAll_distinct]
        exact insertAll_append [] items more
    _ = insertAll (distinct items') (distinct more') := by rw [h, h']
    _ = distinct (items' ++ more') := by
        rw [insertAll_distinct]
        exact (insertAll_append [] items' more').symm

/-- Items that are there already may be listed again. -/
theorem distinct_append_of_subset {items again : List α} (h : again ⊆ items) :
    distinct (items ++ again) = distinct items := by
  have hagain : again ⊆ distinct items := fun x hx => mem_distinct.2 (h hx)
  exact (insertAll_append [] items again).trans (insertAll_of_subset hagain)

/-- First occurrences depend on nothing but the first occurrences of what they are made of. -/
theorem distinct_flatMap_congr {items other : List α} {f g : α → List β}
    (h : distinct items = distinct other) (hfg : ∀ x, distinct (f x) = distinct (g x)) :
    distinct (items.flatMap f) = distinct (other.flatMap g) := by
  have hinner (items : List α) : distinct (items.flatMap f) = distinct (items.flatMap g) := by
    induction items with
    | nil => rfl
    | cons x items ih => exact distinct_append_congr (hfg x) ih
  calc distinct (items.flatMap f)
      = distinct ((distinct items).flatMap f) := (distinct_flatMap_distinct items f).symm
    _ = distinct ((distinct other).flatMap f) := by rw [h]
    _ = distinct (other.flatMap f) := distinct_flatMap_distinct other f
    _ = distinct (other.flatMap g) := hinner other

omit [BEq α] [LawfulBEq α] in
/-- What is the same for every item is there but once. -/
theorem distinct_flatMap_const {items : List α} (h : items ≠ []) (texts : List β) :
    distinct (items.flatMap fun _ => texts) = distinct texts := by
  obtain ⟨x, items, rfl⟩ := List.exists_cons_of_ne_nil h
  have happend : distinct (texts ++ items.flatMap fun _ => texts) =
      insertAll (distinct texts) (items.flatMap fun _ => texts) := insertAll_append [] ..
  have hsubset : (items.flatMap fun _ => texts) ⊆ distinct texts := fun y hy => by
    obtain ⟨-, -, hy⟩ := List.mem_flatMap.1 hy
    exact mem_distinct.2 hy
  rw [List.flatMap_cons, happend, insertAll_of_subset hsubset]

/-! ## Renamings -/

variable {f : α → β}

theorem map_insertNew {items : List α} {x : α} (h : ∀ y ∈ items, f y = f x → y = x) :
    (insertNew items x).map f = insertNew (items.map f) (f x) := by
  have hmem : f x ∈ items.map f ↔ x ∈ items := by
    constructor
    · intro hfx
      rcases List.mem_map.1 hfx with ⟨y, hy, heq⟩
      exact h y hy heq ▸ hy
    · exact List.mem_map_of_mem
  by_cases hx : x ∈ items
  · simp [insertNew, hx, hmem.2 hx]
  · simp [insertNew, hx, mt hmem.1 hx]

theorem map_insertAll {items new : List α}
    (h : ∀ x ∈ items ++ new, ∀ y ∈ items ++ new, f x = f y → x = y) :
    (insertAll items new).map f = insertAll (items.map f) (new.map f) := by
  induction new generalizing items with
  | nil => rfl
  | cons x new ih =>
      have hmem : ∀ y ∈ insertNew items x ++ new, y ∈ items ++ x :: new := by
        intro y hy
        rcases List.mem_append.1 hy with hy | hy
        · rcases mem_insertNew.1 hy with hy | rfl <;> simp [hy]
        · simp [hy]
      have hhead : (insertNew items x).map f = insertNew (items.map f) (f x) :=
        map_insertNew fun y hy => h y (List.mem_append_left _ hy) x (by simp)
      calc (insertAll (insertNew items x) new).map f
          = insertAll ((insertNew items x).map f) (new.map f) :=
            ih fun y hy z hz => h y (hmem y hy) z (hmem z hz)
        _ = insertAll (insertNew (items.map f) (f x)) (new.map f) := by rw [hhead]

/-- First occurrences stay so under a renaming that keeps different items apart. -/
theorem map_distinct {items : List α} (h : ∀ x ∈ items, ∀ y ∈ items, f x = f y → x = y) :
    (distinct items).map f = distinct (items.map f) :=
  map_insertAll (by simpa using h)

/-! ## Repetitions -/

/-- The items that stand further to the front as well, in order. -/
def repeats (items : List α) : List α :=
  (items.zipIdx.filter fun entry => entry.1 ∈ items.take entry.2).map Prod.fst

theorem repeats_concat (items : List α) (x : α) :
    repeats (items ++ [x]) = repeats items ++ if x ∈ items then [x] else [] := by
  have hfront : (items.zipIdx.filter fun entry => entry.1 ∈ (items ++ [x]).take entry.2) =
      items.zipIdx.filter fun entry => entry.1 ∈ items.take entry.2 := by
    refine List.filter_congr fun entry hentry => ?_
    have hbound : entry.2 ≤ items.length := Nat.le_of_lt (List.snd_lt_of_mem_zipIdx hentry)
    rw [List.take_append_of_le_length hbound]
  rw [repeats, List.zipIdx_append, List.filter_append, List.map_append, hfront]
  by_cases hx : x ∈ items <;> simp [repeats, hx]

/-- An item that is nowhere behind repeats nothing. -/
theorem repeats_cons_of_not_mem {items : List α} {x : α} (h : x ∉ items) :
    repeats (x :: items) = repeats items := by
  induction items using List.reverseRecOn with
  | nil => rfl
  | append_singleton items y ih =>
      rw [List.mem_append, List.mem_singleton, not_or] at h
      have hne : y ≠ x := fun heq => h.2 heq.symm
      rw [← List.cons_append, repeats_concat, repeats_concat, ih h.1]
      simp [hne]

/-- Every item is a first occurrence or a repetition. -/
theorem length_repeats_add_length_distinct (items : List α) :
    (repeats items).length + (distinct items).length = items.length := by
  induction items using List.reverseRecOn with
  | nil => rfl
  | append_singleton items x ih =>
      rw [repeats_concat, length_distinct_append, List.length_append, List.length_append]
      split <;> simp only [List.length_singleton, List.length_nil] <;> omega

theorem repeats_eq_nil_iff {items : List α} : repeats items = [] ↔ items.Nodup := by
  have hlength := length_repeats_add_length_distinct items
  rw [← List.length_eq_zero_iff, ← length_distinct_eq_iff]
  omega

/-- An item ahead of the others is repeated where it is one of them. -/
theorem length_repeats_cons (x : α) (items : List α) :
    (repeats (x :: items)).length = (repeats items).length + if x ∈ items then 1 else 0 := by
  have hcons := length_repeats_add_length_distinct (x :: items)
  have hitems := length_repeats_add_length_distinct items
  rw [length_distinct_cons, List.length_cons] at hcons
  split at hcons
  · next hx => rw [if_pos hx]; omega
  · next hx => rw [if_neg hx]; omega

end SchemaLink
