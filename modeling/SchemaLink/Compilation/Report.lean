import SchemaLink.Compilation.SearchIndex
import SchemaLink.Compilation.Structure

/-! # Compilation

All types are structured before the first path is resolved, so every path sees the
fields of every type. Sections with paths need the relation registry and are left
out without it. -/

namespace SchemaLink

/-- The authored documents by type. -/
abbrev AuthoredTypes := SortedMap TypeRef TypeDocument

/-- The outcome of a compilation. -/
structure Report where
  documents : SortedMap TypeRef CompiledDocument
  symbols : SymbolTable
  advisories : List Advisory

/-- Link the display and edit sections of a type. -/
def StructuredType.present (linker : Linker) (type : StructuredType) : Reported StructuredType := do
  let (display, edit) ← SectionLinker.presentation ⟨linker, type.owner⟩ type.authored
  pure { type with document := { type.document with display := display, edit := edit } }

/-- Link the search-index section of a type. -/
def StructuredType.index (linker : Linker) (type : StructuredType) :
    Except LinkError (Reported StructuredType) :=
  (SectionLinker.searchIndex ⟨linker, type.owner⟩ type.authored).map fun found => do
    let search ← found
    pure { type with document := { type.document with
      search := search, searchDisplay := type.authored.searchDisplay } }

/-- Link the search-index sections of types, one after another up to the first error. -/
def indexTypes (linker : Linker) :
    List StructuredType → Except LinkError (Reported (List StructuredType))
  | [] => .ok (pure [])
  | type :: types =>
    match type.index linker with
    | .error error => .error error
    | .ok indexed =>
      match indexTypes linker types with
      | .error error => .error error
      | .ok others => .ok do
        let first ← indexed
        let rest ← others
        pure (first :: rest)

/-- The compiled documents of types. -/
def compiledDocuments (types : List StructuredType) : SortedMap TypeRef CompiledDocument :=
  .ofList (types.map fun type => (type.owner, type.document))

/-- Compile all documents. A failed compilation leaves the allocator as far as it got. -/
def compile (ids : IdAllocator σ) (registry : Registry) (documents : AuthoredTypes) (state : σ) :
    Except LinkError Report × σ :=
  match structureTypes ids registry documents.toList state with
  | (.error error, state) => (.error error, state)
  | (.ok types, state) =>
    let symbols := publishedSymbols types
    let found := registry.missing.map .missingRegistry ++ types.flatMap StructuredType.advisories
    if registry.hasRelations then
      let linker : Linker := ⟨registry, symbols⟩
      let presented := types.mapM (StructuredType.present linker)
      match indexTypes linker presented.value with
      | .error error => (.error error, state)
      | .ok indexed =>
        (.ok
          { documents := compiledDocuments indexed.value
            symbols := symbols
            advisories := found ++ presented.advisories ++ indexed.advisories }, state)
    else
      (.ok { documents := compiledDocuments types, symbols := symbols, advisories := found }, state)

end SchemaLink
