import SchemaLink.Proofs.SortedMap

/-! # First failures

A loop that stops where a step fails comes to the first failure among its steps. Loops
within loops come to the first failure among the steps of all of them, in order. -/

namespace SchemaLink

variable {ε ε' α β κ : Type}

/-- What a computation failed with, if it failed. -/
def failure? : Except ε α → Option ε
  | .error error => some error
  | .ok _ => none

theorem failure?_eq_some_iff {outcome : Except ε α} {error : ε} :
    failure? outcome = some error ↔ outcome = .error error := by
  cases outcome with
  | error found => simp [failure?]
  | ok value => simp [failure?]

theorem failure?_eq_none_iff {outcome : Except ε α} :
    failure? outcome = none ↔ outcome.isOk = true := by
  cases outcome with
  | error found => simp [failure?, Except.isOk, Except.toBool]
  | ok value => simp [failure?, Except.isOk, Except.toBool]

theorem failure?_map (f : α → β) (outcome : Except ε α) :
    failure? (outcome.map f) = failure? outcome := by
  cases outcome <;> rfl

theorem failure?_mapM (f : α → Except ε β) (items : List α) :
    failure? (items.mapM f) = items.findSome? fun item => failure? (f item) := by
  induction items with
  | nil => rfl
  | cons item items ih =>
      rw [List.mapM_cons, List.findSome?_cons, ← ih]
      cases f item with
      | error error => rfl
      | ok first => cases items.mapM f <;> rfl

theorem failure?_traverseEntries (f : κ → α → Except ε β) (entries : List (κ × α)) :
    failure? (SortedMap.traverseEntries f entries) =
      entries.findSome? fun entry => failure? (f entry.1 entry.2) := by
  induction entries with
  | nil => rfl
  | cons entry entries ih =>
      rw [SortedMap.traverseEntries, List.findSome?_cons, ← ih]
      cases f entry.1 entry.2 with
      | error error => rfl
      | ok first => cases SortedMap.traverseEntries f entries <;> rfl

theorem failure?_traverse [Ord κ] [Std.TransOrd κ] [Std.LawfulEqOrd κ] (f : κ → α → Except ε β)
    (map : SortedMap κ α) :
    failure? (map.traverse f) = map.toList.findSome? fun entry => failure? (f entry.1 entry.2) := by
  rw [SortedMap.traverse_eq, failure?_map, failure?_traverseEntries]

theorem findSome?_flatMap (items : List α) (f : α → List β) (g : β → Option ε) :
    (items.flatMap f).findSome? g = items.findSome? fun item => (f item).findSome? g := by
  induction items with
  | nil => rfl
  | cons item items ih =>
      rw [List.flatMap_cons, List.findSome?_append, List.findSome?_cons, ih]
      cases (f item).findSome? g <;> rfl

end SchemaLink
