import SchemaLink.Alternatives
import SchemaLink.Path.Segment
import SchemaLink.Registry.Basic
import SchemaLink.Symbols

/-! # Scopes

A path starts from the types in scope, and its own properties belong to the
relations in scope. An anchor moves the scope to where its hops arrive. -/

namespace SchemaLink

/-- What paths are resolved against: the registered relations and the published fields. -/
structure Linker where
  registry : Registry
  symbols : SymbolTable

/-- The types a path may start from, repetitions allowed, and the relations whose
properties it may name. -/
structure Scope where
  types : List TypeRef
  relations : List String
  deriving DecidableEq, Repr

namespace Scope

/-- The scope of a type itself. Only a relation has properties of its own. -/
def own (owner : TypeRef) : Scope where
  types := [owner]
  relations :=
    match owner.kind with
    | .relation => [owner.name]
    | .entity => []

end Scope

/-- The hops that the alternatives of an anchor end on. -/
def anchorHops (anchor : String) : List Hop :=
  (Alternatives.parse anchor).items.filterMap fun text =>
    (Path.parse? text).bind Path.anchor?

namespace Linker

/-- The entity types that a hop arrives at; none if the relation is not registered. -/
def targets (linker : Linker) (hop : Hop) : List String :=
  match linker.registry.relation? hop.relation with
  | some entry => entry.targets hop.direction
  | none => []

/-- The scope of a type, moved to the end of an anchor if there is one. -/
def scope (linker : Linker) (owner : TypeRef) : Option String → Scope
  | none => .own owner
  | some anchor =>
    { types := (anchorHops anchor).flatMap fun hop => (linker.targets hop).map TypeRef.entity
      relations := (anchorHops anchor).map Hop.relation }

end Linker

end SchemaLink
