/-! # Path expressions

A path follows relations from one type to the next and ends in a terminal: a
field, a property of a relation, a bare hop, or one of two pseudo-properties. -/

namespace SchemaLink

/-- Which way a relation is followed. -/
inductive Direction where
  /-- From the domain of the relation to its range. -/
  | forward
  /-- From the range of the relation to its domain. -/
  | inverse
  deriving DecidableEq, Repr

/-- The mark written before the relation name. -/
def Direction.marker : Direction → String
  | .forward => "r"
  | .inverse => "ri"

/-- One step across a relation, named by its system name or, once resolved, by its id. -/
structure Hop where
  direction : Direction
  relation : String
  deriving DecidableEq, Repr

namespace Hop

/-- The name of a hop, as it stands after the dollar sign. -/
def name (hop : Hop) : String := hop.direction.marker ++ "_" ++ hop.relation

def text (hop : Hop) : String := "$" ++ hop.name

/-- The hop that a name spells. The relation must not be empty, and `ri_` is tried first. -/
def ofName? (name : String) : Option Hop :=
  match name.toList with
  | 'r' :: 'i' :: '_' :: c :: cs => some ⟨.inverse, String.ofList (c :: cs)⟩
  | 'r' :: '_' :: c :: cs => some ⟨.forward, String.ofList (c :: cs)⟩
  | _ => none

end Hop

/-- The pseudo-property that stands for the display name of an entity. -/
def displayName : String := "display_name"

/-- The pseudo-property that stands for the type of an entity. -/
def entityTypeName : String := "entity_type_name"

/-- What a path ends in. -/
inductive Terminal where
  /-- A property of the relations in scope. -/
  | ownProperty (property : String)
  /-- A property of the relation of the hop it is bound to. -/
  | hopProperty (hop : Hop) (property : String)
  /-- A hop with nothing after it. -/
  | hop (hop : Hop)
  | displayName
  | entityTypeName
  /-- An ordinary field of the type reached. -/
  | field (name : String)
  deriving DecidableEq, Repr

namespace Terminal

/-- What a name stands for at the end of a path, when no dot precedes it. -/
def ofName (name : String) : Terminal :=
  match Hop.ofName? name with
  | some step => .hop step
  | none =>
    if name = SchemaLink.displayName then .displayName
    else if name = SchemaLink.entityTypeName then .entityTypeName
    else .field name

def text : Terminal → String
  | ownProperty property => ".$" ++ property
  | hopProperty step property => step.text ++ ".$" ++ property
  | hop step => step.text
  | displayName => "$" ++ SchemaLink.displayName
  | entityTypeName => "$" ++ SchemaLink.entityTypeName
  | field name => "$" ++ name

end Terminal

/-- A path expression: the hops to follow, then the terminal. -/
structure Path where
  hops : List Hop
  terminal : Terminal
  deriving DecidableEq, Repr

namespace Path

/-- The path that takes one more hop at its start. -/
def after (step : Hop) (path : Path) : Path := ⟨step :: path.hops, path.terminal⟩

def text (path : Path) : String :=
  path.hops.foldr (fun step rest => step.text ++ "->" ++ rest) path.terminal.text

/-- The hop on which an anchoring path ends; only a path that ends in a bare hop anchors others. -/
def anchor? (path : Path) : Option Hop :=
  match path.terminal with
  | .hop step => some step
  | _ => none

end Path

end SchemaLink
