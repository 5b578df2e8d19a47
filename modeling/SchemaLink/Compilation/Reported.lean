import SchemaLink.Advisory

/-! # Values with advisories

A value together with the advisories found on the way to it, in order. -/

namespace SchemaLink

structure Reported (α : Type u) where
  value : α
  advisories : List Advisory

namespace Reported

@[ext] theorem ext {x y : Reported α} (hvalue : x.value = y.value)
    (hadvisories : x.advisories = y.advisories) : x = y := by
  cases x; cases y; cases hvalue; cases hadvisories; rfl

instance : Monad Reported where
  pure a := ⟨a, []⟩
  bind x f := ⟨(f x.value).value, x.advisories ++ (f x.value).advisories⟩

@[simp] theorem pure_value (a : α) : (pure a : Reported α).value = a := rfl

@[simp] theorem pure_advisories (a : α) : (pure a : Reported α).advisories = [] := rfl

@[simp] theorem bind_value (x : Reported α) (f : α → Reported β) :
    (x >>= f).value = (f x.value).value := rfl

@[simp] theorem bind_advisories (x : Reported α) (f : α → Reported β) :
    (x >>= f).advisories = x.advisories ++ (f x.value).advisories := rfl

instance : LawfulMonad Reported := .mk' Reported
  (fun x => by apply ext <;> simp [Functor.map])
  (fun _ _ => by apply ext <;> simp)
  (fun _ _ _ => by apply ext <;> simp)

/-- Report on the values of a map in key order. -/
def mapValues [Ord κ] (f : κ → β → Reported γ) (map : SortedMap κ β) :
    Reported (SortedMap κ γ) :=
  let results := map.mapWithKey f
  ⟨results.mapWithKey fun _ result => result.value, results.values.flatMap advisories⟩

end Reported

end SchemaLink
