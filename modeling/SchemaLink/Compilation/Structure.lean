import SchemaLink.Advisory
import SchemaLink.Document.Basic
import SchemaLink.Ids.Allocation
import SchemaLink.Symbols

/-! # Structure of types

First of all, every declared field of every type is given its id, and the lookups
are published that paths into the type depend on. -/

namespace SchemaLink

/-- A type on its way through a compilation. -/
structure StructuredType where
  owner : TypeRef
  authored : TypeDocument
  /-- The sections compiled so far. -/
  document : CompiledDocument
  /-- The lookup that the type publishes, if it has a data section. -/
  lookup : Option FieldLookup
  advisories : List Advisory

/-- A field with its groups resolved. -/
def FieldDeclaration.resolve (field : FieldDeclaration) (registry : Registry) :
    Except LinkError FieldDeclaration :=
  match field.permissions with
  | none => .ok field
  | some permissions =>
    (registry.resolvePermissions permissions).map fun resolved =>
      { field with permissions := some resolved }

/-- Give ids to fields in order of declaration. A field has its id before its groups are
resolved. -/
def placeFields (ids : IdAllocator σ) (registry : Registry) (owner : TypeRef) :
    List FieldDeclaration → σ → Except LinkError (List (String × FieldDeclaration)) × σ
  | [], state => (.ok [], state)
  | field :: fields, state =>
    let (id, state) := ids owner field.systemName state
    match field.resolve registry with
    | .error error => (.error error, state)
    | .ok field =>
      match placeFields ids registry owner fields state with
      | (.error error, state) => (.error error, state)
      | (.ok placed, state) => (.ok ((id, field) :: placed), state)

/-- The names that a lookup binds already when they are declared. -/
def repeatedNames : FieldLookup → List (String × String) → List String
  | _, [] => []
  | lookup, (name, id) :: declared =>
    let rest := repeatedNames (lookup.insert name id) declared
    if (lookup.find? name).isSome then name :: rest else rest

/-- Compare the ends of a relation as declared with those in the registry. -/
def checkEnds (registry : Registry) (owner : TypeRef) (doc : TypeDocument) : List Advisory :=
  if owner.kind = .entity || (doc.domain.isNone && doc.range.isNone) || !registry.hasRelations then
    []
  else
    match registry.relation? owner.name with
    | none => [.unregisteredRelation owner]
    | some entry =>
      let check (side : String) (declared : Option (List String)) (registered : List String) :=
        match declared with
        | none => []
        | some declared =>
          if declared = registered then [] else [.domainMismatch owner side declared registered]
      check "domain" doc.domain entry.domain ++ check "range" doc.range entry.range

/-- The structure of one type. -/
def structureType (ids : IdAllocator σ) (registry : Registry) (owner : TypeRef)
    (doc : TypeDocument) (state : σ) : Except LinkError StructuredType × σ :=
  let ends := checkEnds registry owner doc
  match doc.data with
  | none =>
    (.ok
      { owner := owner
        authored := doc
        document := { detail := doc.detail, source := doc.source }
        lookup := none
        advisories := ends }, state)
  | some data =>
    match placeFields ids registry owner data.fields state with
    | (.error error, state) => (.error error, state)
    | (.ok placed, state) =>
      match registry.resolvePermissions data.permissions with
      | .error error => (.error error, state)
      | .ok permissions =>
        let declared := placed.map fun (id, field) => (field.systemName, id)
        let repeated := repeatedNames .initial declared
        let compiled : CompiledData := { fields := .ofList placed, permissions := permissions }
        (.ok
          { owner := owner
            authored := doc
            document := { detail := doc.detail, source := doc.source, data := some compiled }
            lookup := some (.ofList declared)
            advisories := ends ++ repeated.map (.duplicateField owner) }, state)

/-- The structure of types, one after another up to the first error. -/
def structureTypes (ids : IdAllocator σ) (registry : Registry) :
    List (TypeRef × TypeDocument) → σ → Except LinkError (List StructuredType) × σ
  | [], state => (.ok [], state)
  | (owner, doc) :: docs, state =>
    match structureType ids registry owner doc state with
    | (.error error, state) => (.error (.inType owner error), state)
    | (.ok structured, state) =>
      match structureTypes ids registry docs state with
      | (.error error, state) => (.error error, state)
      | (.ok rest, state) => (.ok (structured :: rest), state)

/-- The lookups that types publish. -/
def publishedSymbols (types : List StructuredType) : SymbolTable :=
  types.foldl (fun symbols type =>
    match type.lookup with
    | none => symbols
    | some lookup => symbols.publish type.owner lookup) .empty

end SchemaLink
