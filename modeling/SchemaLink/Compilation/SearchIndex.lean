import SchemaLink.Compilation.Presentation

/-! # Search-index sections

Parts and filters are anchored at the base of their field, as authored; all other
templates start from the type itself. A member that the kind of a field does not
use is left alone. -/

namespace SchemaLink

namespace SectionLinker

/-- Link the templates that the kind of a field uses. -/
def searchValue (context : SectionLinker) (place : String) (field : SearchField) :
    Reported SearchField :=
  match field.kind with
  | .nested => do
    let parts ← field.parts.mapM fun parts =>
      Reported.mapValues
        (fun key part => context.template (place ++ ".parts." ++ key) part field.base) parts
    let base ← context.optional (place ++ ".base") field.base none
    pure { field with parts := parts, base := base }
  | .interval => do
    let start ← context.optional (place ++ ".start") field.start none
    let finish ← context.optional (place ++ ".end") field.finish none
    pure { field with start := start, finish := finish }
  | .simple => do
    let selector ← context.optional (place ++ ".selector_value") field.selector none
    pure { field with selector := selector }

def searchField (context : SectionLinker) (place : String) (field : SearchField) :
    Reported SearchField := do
  let linked ← context.searchValue place field
  let filter ← context.optional (place ++ ".filter") field.filter field.base
  pure { linked with filter := filter }

/-- Link the fields of a search-index section. -/
def searchFields (context : SectionLinker) (search : SearchSection) : Reported SearchSection := do
  let fields ← search.fields.mapM fun fields =>
    fields.zipIdx.mapM fun (field, i) =>
      context.searchField ("es_data.fields[" ++ toString i ++ "]") field
  pure { search with fields := fields }

end SectionLinker

/-- A search-index section with its groups resolved. -/
def SearchSection.resolve (search : SearchSection) (registry : Registry) :
    Except LinkError SearchSection :=
  match search.permissions with
  | none => .ok search
  | some permissions =>
    (registry.resolvePermissions permissions).map fun resolved =>
      { search with permissions := some resolved }

namespace SectionLinker

/-- The search-index section of a document. -/
def searchIndex (context : SectionLinker) (doc : TypeDocument) :
    Except LinkError (Reported (Option SearchSection)) :=
  match doc.search with
  | none => .ok (pure none)
  | some search =>
    let linked := context.searchFields search
    match linked.value.resolve context.linker.registry with
    | .error error => .error (.inType context.owner error)
    | .ok resolved => .ok ⟨some resolved, linked.advisories⟩

end SectionLinker

end SchemaLink
