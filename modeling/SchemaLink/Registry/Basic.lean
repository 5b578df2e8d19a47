import SchemaLink.SortedMap
import SchemaLink.TypeRef
import SchemaLink.Path.Basic

/-! # Registries

The ids assigned to entities, relations and permission groups. Each table may
be missing: a run without relations compiles what needs none. -/

namespace SchemaLink

/-- A registered relation with the entity types it leads from and to. -/
structure RelationEntry where
  id : String
  domain : List String := []
  range : List String := []
  deriving DecidableEq, Repr

/-- The entity types that a hop over the relation arrives at. -/
def RelationEntry.targets (entry : RelationEntry) : Direction → List String
  | .forward => entry.range
  | .inverse => entry.domain

/-- Entity ids by system name. -/
abbrev EntityTable := SortedMap String String

abbrev RelationTable := SortedMap String RelationEntry

/-- Group ids by project and group name. -/
abbrev GroupTable := SortedMap String (SortedMap String String)

inductive RegistryKind where
  | entities
  | relations
  | groups
  deriving DecidableEq, Repr

def RegistryKind.label : RegistryKind → String
  | entities => "entity registry"
  | relations => "relation registry"
  | groups => "group registry"

structure Registry where
  entities : Option EntityTable := none
  relations : Option RelationTable := none
  groups : Option GroupTable := none

namespace Registry

/-- The tables that were not supplied. -/
def missing (registry : Registry) : List RegistryKind :=
  (if registry.entities.isNone then [.entities] else []) ++
  (if registry.relations.isNone then [.relations] else []) ++
  (if registry.groups.isNone then [.groups] else [])

def hasRelations (registry : Registry) : Bool := registry.relations.isSome

def entityId? (registry : Registry) (name : String) : Option String :=
  registry.entities.bind fun table => table.find? name

def relation? (registry : Registry) (name : String) : Option RelationEntry :=
  registry.relations.bind fun table => table.find? name

def groupId? (registry : Registry) (project group : String) : Option String :=
  (registry.groups.bind fun table => table.find? project).bind fun groups => groups.find? group

end Registry

end SchemaLink
