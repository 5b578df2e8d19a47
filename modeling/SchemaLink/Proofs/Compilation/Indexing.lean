import SchemaLink.Proofs.Compilation.Linking

/-! # Indexing apart from resolution

Whether the groups of the search-index sections resolve has nothing to do with symbols.
Once they do, indexing fills in the templates of every section and cannot fail. So all that
follows the structure of types comes down to resolving these groups. -/

namespace SchemaLink

/-- The search-index section of a document with its groups resolved. -/
def TypeDocument.resolveSearch (doc : TypeDocument) (registry : Registry) (owner : TypeRef) :
    Except LinkError (Option SearchSection) :=
  match doc.search with
  | none => .ok none
  | some search =>
    match search.resolve registry with
    | .error error => .error (.inType owner error)
    | .ok resolved => .ok (some resolved)

/-- The search-index section of a type with its groups resolved. -/
def StructuredType.resolveSearch (registry : Registry) (type : StructuredType) :
    Except LinkError (Option SearchSection) :=
  type.authored.resolveSearch registry type.owner

/-- A type with its search-index section filled in. -/
def StructuredType.indexed (linker : Linker) (type : StructuredType)
    (search : Option SearchSection) : StructuredType :=
  { type with document := { type.document with
    search := search.map (SearchSection.filled (linker.fill type.owner))
    searchDisplay := type.authored.searchDisplay } }

/-- The advisories on the search-index section of a type. -/
def StructuredType.searchAdvisories (linker : Linker) (type : StructuredType) : List Advisory :=
  linker.vanishing type.owner (searchTemplates type.authored.search)

theorem index_eq (linker : Linker) (type : StructuredType) :
    type.index linker = (type.resolveSearch linker.registry).map fun search =>
      ⟨type.indexed linker search, type.searchAdvisories linker⟩ := by
  unfold StructuredType.index SectionLinker.searchIndex StructuredType.resolveSearch
    TypeDocument.resolveSearch StructuredType.searchAdvisories
  cases type.authored.search with
  | none => rfl
  | some search =>
      dsimp only
      rw [SectionLinker.searchFields_eq, SectionLinker.made, SearchSection.resolve_filled]
      cases search.resolve linker.registry with
      | error error => rfl
      | ok resolved =>
          simp only [Except.map, searchTemplates, Option.toList_some, List.flatMap_singleton]
          congr 1
          apply Reported.ext
          · rfl
          · simp only [Reported.bind_advisories, Reported.pure_advisories, List.append_nil]
            rfl

theorem indexTypes_eq (linker : Linker) (types : List StructuredType) :
    indexTypes linker types =
      (types.mapM (StructuredType.resolveSearch linker.registry)).map fun searches =>
        ⟨List.zipWith (StructuredType.indexed linker) types searches,
          types.flatMap (StructuredType.searchAdvisories linker)⟩ := by
  induction types with
  | nil => rfl
  | cons type types ih =>
      rw [indexTypes, index_eq, ih, List.mapM_cons]
      cases type.resolveSearch linker.registry with
      | error error => rfl
      | ok search =>
          cases types.mapM (StructuredType.resolveSearch linker.registry) with
          | error error => rfl
          | ok searches =>
              simp only [Except.map, List.flatMap_cons]
              congr 1
              apply Reported.ext
              · rfl
              · simp only [Reported.bind_advisories, Reported.pure_advisories, List.append_nil]

/-- A type after all stages, given its search-index section with the groups resolved. -/
def StructuredType.linked (linker : Linker) (type : StructuredType)
    (search : Option SearchSection) : StructuredType :=
  (type.present linker).value.indexed linker search

/-- The report on types that follow relations, given their search-index sections with the groups
resolved. -/
def linkedReport (registry : Registry) (types : List StructuredType)
    (searches : List (Option SearchSection)) : Report :=
  let symbols := publishedSymbols types
  let linker : Linker := ⟨registry, symbols⟩
  { documents := compiledDocuments (List.zipWith (StructuredType.linked linker) types searches)
    symbols := symbols
    advisories :=
      registry.missing.map .missingRegistry ++ types.flatMap StructuredType.advisories ++
      (types.flatMap fun type => (type.present linker).advisories) ++
      types.flatMap (StructuredType.searchAdvisories linker) }

/-- With relations at hand, only the groups of search-index sections are left to fail. -/
theorem finish_of_relations {registry : Registry} (hrelations : registry.hasRelations = true)
    (types : List StructuredType) :
    finish registry types =
      (types.mapM (StructuredType.resolveSearch registry)).map (linkedReport registry types) := by
  let linker : Linker := ⟨registry, publishedSymbols types⟩
  have hsearches : (types.map fun type => (type.present linker).value).mapM
      (StructuredType.resolveSearch registry) =
        types.mapM (StructuredType.resolveSearch registry) := by
    rw [List.mapM_map]
    rfl
  unfold finish
  simp only [hrelations, if_true]
  rw [Reported.mapM_value, indexTypes_eq, Reported.mapM_advisories, hsearches]
  cases types.mapM (StructuredType.resolveSearch registry) with
  | error error => rfl
  | ok searches =>
      simp only [Except.map, linkedReport, List.zipWith_map_left, List.flatMap_map]
      rfl

end SchemaLink
