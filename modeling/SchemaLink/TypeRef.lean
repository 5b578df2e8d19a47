/-! # Types of the schema

Entity types and relation types are compiled alike and live in separate name
spaces. Types are ordered by kind, entities first, and then by name. -/

namespace SchemaLink

inductive TypeKind where
  | entity
  | relation
  deriving DecidableEq, Repr

namespace TypeKind

def all : List TypeKind := [.entity, .relation]

/-- The word for the kind, also the directory of its documents. -/
def label : TypeKind → String
  | .entity => "entity"
  | .relation => "relation"

def rank : TypeKind → Nat
  | .entity => 0
  | .relation => 1

theorem rank_injective {a b : TypeKind} (h : a.rank = b.rank) : a = b := by
  cases a <;> cases b <;> first | rfl | cases h

end TypeKind

/-- A type: its kind and its system name. -/
structure TypeRef where
  kind : TypeKind
  name : String
  deriving DecidableEq, Repr

namespace TypeRef

def entity (name : String) : TypeRef := ⟨.entity, name⟩

def relation (name : String) : TypeRef := ⟨.relation, name⟩

/-- The written form, such as `entity/book`. -/
def text (type : TypeRef) : String := type.kind.label ++ "/" ++ type.name

instance : Ord TypeRef where
  compare := compareLex (compareOn fun type => type.kind.rank) (compareOn TypeRef.name)

instance : Std.TransOrd TypeRef :=
  inferInstanceAs (Std.TransCmp
    (compareLex (compareOn fun type : TypeRef => type.kind.rank) (compareOn TypeRef.name)))

instance : Std.LawfulEqOrd TypeRef where
  eq_of_compare {a b} h := by
    obtain ⟨hkind, hname⟩ := Ordering.then_eq_eq.1 h
    obtain ⟨ka, na⟩ := a
    obtain ⟨kb, nb⟩ := b
    obtain rfl : ka = kb := TypeKind.rank_injective (Std.LawfulEqOrd.eq_of_compare hkind)
    obtain rfl : na = nb := Std.LawfulEqOrd.eq_of_compare hname
    rfl

end TypeRef

end SchemaLink
