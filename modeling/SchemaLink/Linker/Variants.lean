import SchemaLink.Linker.Scope

/-! # Variants of a path

A path has one variant for every way it can be read in its scope. Each hop leads
from every type reached so far to all types its relation arrives at, and a way
that ends on a type without the field asked for is dropped. -/

namespace SchemaLink

/-- A type reached, and the id form of the hops that led to it. -/
structure Reached where
  type : TypeRef
  segments : List String
  deriving DecidableEq, Repr

/-- The id form of a hop over a registered relation. -/
def RelationEntry.hopText (entry : RelationEntry) (direction : Direction) : String :=
  (Hop.mk direction entry.id).text

namespace Linker

/-- Follow one hop from everything reached so far. -/
def follow (entry : RelationEntry) (direction : Direction) (frontier : List Reached) :
    List Reached :=
  distinct <| frontier.flatMap fun reached =>
    (entry.targets direction).map fun target =>
      ⟨.entity target, reached.segments ++ [entry.hopText direction]⟩

/-- Follow hops one after another; there is no frontier after an unregistered relation. -/
def followAll (linker : Linker) : List Hop → List Reached → Option (List Reached)
  | [], frontier => some frontier
  | hop :: hops, frontier =>
    match linker.registry.relation? hop.relation with
    | none => none
    | some entry => followAll linker hops (follow entry hop.direction frontier)

/-- The id forms of a terminal on a type. -/
def terminalTexts (linker : Linker) (scope : Scope) (type : TypeRef) : Terminal → List String
  | .ownProperty property =>
    scope.relations.filterMap fun relation =>
      (linker.symbols.fieldId? (.relation relation) property).map fun id => ".$" ++ id
  | .hopProperty hop property =>
    match linker.registry.relation? hop.relation,
        linker.symbols.fieldId? (.relation hop.relation) property with
    | some entry, some id => [entry.hopText hop.direction ++ ".$" ++ id]
    | _, _ => []
  | .hop hop =>
    match linker.registry.relation? hop.relation with
    | some entry => [entry.hopText hop.direction]
    | none => []
  | .displayName => ["$" ++ displayName]
  | .entityTypeName => ["$" ++ entityTypeName]
  | .field name =>
    match linker.symbols.fieldId? type name with
    | some id => ["$" ++ id]
    | none => []

/-- All variants of a path in a scope, each once, in the order in which they are reached. -/
def variants (linker : Linker) (path : Path) (scope : Scope) : List String :=
  match linker.followAll path.hops (scope.types.map fun type => ⟨type, []⟩) with
  | none => []
  | some frontier =>
    distinct <| frontier.flatMap fun reached =>
      (linker.terminalTexts scope reached.type path.terminal).map fun last =>
        "->".intercalate (reached.segments ++ [last])

end Linker

end SchemaLink
