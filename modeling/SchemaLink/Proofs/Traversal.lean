import Mathlib.Data.List.Forall2
import SchemaLink.Proofs.SortedMap

/-! # Loops that succeed

A loop in which no step fails does to every item what a single step does, and leaves the
results in the order of the items. What may be missing is a loop over one item at most. -/

namespace SchemaLink

variable {ε α β γ κ : Type}

/-- What is made of an outcome is made of the value that it has come to. -/
theorem exists_of_map_eq_ok {f : α → β} {outcome : Except ε α} {result : β}
    (h : outcome.map f = .ok result) : ∃ value, outcome = .ok value ∧ f value = result := by
  cases outcome with
  | error error => cases h
  | ok value => exact ⟨value, rfl, Except.ok.inj h⟩

theorem forall₂_of_mapM {f : α → Except ε β} {items : List α} {results : List β}
    (h : items.mapM f = .ok results) :
    List.Forall₂ (fun item result => f item = .ok result) items results := by
  induction items generalizing results with
  | nil => cases h; exact .nil
  | cons item items ih =>
      rw [List.mapM_cons] at h
      cases hitem : f item with
      | error error => rw [hitem] at h; cases h
      | ok first =>
          cases hrest : items.mapM f with
          | error error => rw [hitem, hrest] at h; cases h
          | ok rest =>
              rw [hitem, hrest] at h
              cases h
              exact .cons hitem (ih hrest)

theorem forall₂_of_traverseEntries {f : κ → α → Except ε β} {entries : List (κ × α)}
    {results : List (κ × β)} (h : SortedMap.traverseEntries f entries = .ok results) :
    List.Forall₂ (fun entry result => result.1 = entry.1 ∧ f entry.1 entry.2 = .ok result.2)
      entries results := by
  induction entries generalizing results with
  | nil => cases h; exact .nil
  | cons entry entries ih =>
      rw [SortedMap.traverseEntries] at h
      split at h
      · cases h
      · next value hvalue =>
          split at h
          · cases h
          · next rest hrest => cases h; exact .cons ⟨rfl, hvalue⟩ (ih hrest)

theorem forall₂_of_traverse [Ord κ] {f : κ → α → Except ε β}
    {map : SortedMap κ α} {result : SortedMap κ β} (h : map.traverse f = .ok result) :
    List.Forall₂ (fun entry result => result.1 = entry.1 ∧ f entry.1 entry.2 = .ok result.2)
      map.toList result.toList := by
  unfold SortedMap.traverse at h
  split at h
  · cases h
  · next entries hentries => cases h; exact forall₂_of_traverseEntries hentries

/-- Every item of the other list has a partner in the first one. -/
theorem exists_of_forall₂_right {r : α → β → Prop} {items : List α} {others : List β}
    (h : List.Forall₂ r items others) {other : β} (hmem : other ∈ others) :
    ∃ item ∈ items, r item other := by
  induction h with
  | nil => cases hmem
  | cons hfirst hrest ih =>
      rcases List.mem_cons.1 hmem with rfl | hmem
      · exact ⟨_, by simp, hfirst⟩
      · obtain ⟨item, hitem, hr⟩ := ih hmem
        exact ⟨item, List.mem_cons_of_mem _ hitem, hr⟩

/-- Partners are combined side by side. -/
theorem exists_mem_zipWith {r : α → β → Prop} {f : α → β → γ} {items : List α}
    {others : List β} (h : List.Forall₂ r items others) {item : α} (hmem : item ∈ items) :
    ∃ other, r item other ∧ f item other ∈ List.zipWith f items others := by
  induction h with
  | nil => cases hmem
  | cons hfirst hrest ih =>
      rcases List.mem_cons.1 hmem with rfl | hmem
      · exact ⟨_, hfirst, by simp⟩
      · obtain ⟨other, hr, hother⟩ := ih hmem
        exact ⟨other, hr, List.mem_cons_of_mem _ hother⟩

theorem map_zipWith_of_forall₂ {δ : Type} {r : α → β → Prop} {f : α → β → γ} {g : γ → δ}
    {g' : α → δ} (hg : ∀ item other, g (f item other) = g' item) {items : List α}
    {others : List β} (h : List.Forall₂ r items others) :
    (List.zipWith f items others).map g = items.map g' := by
  induction h with
  | nil => rfl
  | cons hfirst hrest ih => rw [List.zipWith_cons_cons, List.map_cons, List.map_cons, ih, hg]

/-- What holds of items beside their partners holds of them beside what stands at the same places
as these. -/
theorem forall₂_of_zip {r : α → β → Prop} {s : α → γ → Prop} {items : List α} {others : List β}
    {labels : List γ} (h : List.Forall₂ r items others) (hlength : labels.length = others.length)
    (hs : ∀ label other item, (label, other) ∈ labels.zip others → r item other → s item label) :
    List.Forall₂ s items labels := by
  induction h generalizing labels with
  | nil =>
      obtain rfl := List.length_eq_zero_iff.1 hlength
      exact .nil
  | cons hfirst hrest ih =>
      cases labels with
      | nil => cases hlength
      | cons label labels =>
          exact .cons (hs label _ _ (by simp) hfirst) (ih (Nat.succ.inj hlength)
            fun label' other item hmem => hs label' other item (by simp [hmem]))

/-- What comes of the items one after another, laid end to end. -/
theorem forall₂_flatMap {r : β → γ → Prop} {f : α → List β} {items : List α}
    {results : List (List γ)}
    (h : List.Forall₂ (fun item result => List.Forall₂ r (f item) result) items results) :
    List.Forall₂ r (items.flatMap f) results.flatten := by
  induction h with
  | nil => exact .nil
  | cons hfirst _ ih => exact List.rel_append hfirst ih

theorem rel_getLast? {r : α → β → Prop} {items : List α} {others : List β}
    (h : List.Forall₂ r items others) : Option.Rel r items.getLast? others.getLast? := by
  induction h with
  | nil => exact .none
  | @cons item other items others hfirst _ ih =>
      rw [List.getLast?_cons, List.getLast?_cons]
      generalize items.getLast? = last at ih
      generalize others.getLast? = last' at ih
      cases ih with
      | some hlast => exact .some hlast
      | none => exact .some hfirst

/-- Items that are numbered before something is done to them. -/
theorem forall₂_zipIdx_map {r : α → β → Prop} {f : α × Nat → β} (h : ∀ item i, r item (f (item, i)))
    (items : List α) (start : Nat) : List.Forall₂ r items ((items.zipIdx start).map f) := by
  induction items generalizing start with
  | nil => exact .nil
  | cons item items ih =>
      rw [List.zipIdx_cons, List.map_cons]
      exact .cons (h item start) (ih (start + 1))

/-- What holds of items holds of their partners, if it is passed on from one to the other. -/
theorem forall_of_forall₂ {r : α → β → Prop} {p : α → Prop} {q : β → Prop}
    (hpass : ∀ item other, r item other → p item → q other) {items : List α} {others : List β}
    (h : List.Forall₂ r items others) (hp : ∀ item ∈ items, p item) :
    ∀ other ∈ others, q other := by
  intro other hother
  obtain ⟨item, hitem, hr⟩ := exists_of_forall₂_right h hother
  exact hpass item other hr (hp item hitem)

theorem forall_of_rel {r : α → β → Prop} {p : α → Prop} {q : β → Prop}
    (hpass : ∀ item other, r item other → p item → q other) {item : Option α} {other : Option β}
    (h : Option.Rel r item other) (hp : ∀ a ∈ item, p a) : ∀ b ∈ other, q b := by
  cases h with
  | none => nofun
  | some hr =>
      rintro _ ⟨⟩
      exact hpass _ _ hr (hp _ rfl)

/-- What is passed on by the items of a list that may be missing. -/
theorem forall_items_of_rel {r : α → β → Prop} {p : α → Prop} {q : β → Prop}
    (hpass : ∀ item other, r item other → p item → q other) {items : Option (List α)}
    {others : Option (List β)} (h : Option.Rel (List.Forall₂ r) items others)
    (hp : ∀ found ∈ items, ∀ item ∈ found, p item) : ∀ found ∈ others, ∀ other ∈ found, q other :=
  forall_of_rel (p := fun found => ∀ item ∈ found, p item)
    (q := fun found => ∀ other ∈ found, q other) (fun _ _ => forall_of_forall₂ hpass) h hp

theorem rel_imp {r r' : α → β → Prop} (himp : ∀ item other, r item other → r' item other)
    {item : Option α} {other : Option β} (h : Option.Rel r item other) :
    Option.Rel r' item other := by
  cases h with
  | some h => exact .some (himp _ _ h)
  | none => exact .none

theorem rel_map {r : α → β → Prop} {f : α → β} (h : ∀ item, r item (f item)) (item : Option α) :
    Option.Rel r item (item.map f) := by
  cases item with
  | none => exact .none
  | some item => exact .some (h item)

end SchemaLink
