import SchemaLink.Compilation.Report
import SchemaLink.Proofs.Compilation.Structure

/-! # Compilation after structuring

What follows the structure of the types gives no ids. It leaves owners and data
sections as they are, and fails for reasons that no id has a part in. -/

namespace SchemaLink

/-- What a compilation does once its types are structured. -/
def finish (registry : Registry) (types : List StructuredType) : Except LinkError Report :=
  let symbols := publishedSymbols types
  let found := registry.missing.map .missingRegistry ++ types.flatMap StructuredType.advisories
  if registry.hasRelations then
    let linker : Linker := ⟨registry, symbols⟩
    let presented := types.mapM (StructuredType.present linker)
    match indexTypes linker presented.value with
    | .error error => .error error
    | .ok indexed =>
      .ok
        { documents := compiledDocuments indexed.value
          symbols := symbols
          advisories := found ++ presented.advisories ++ indexed.advisories }
  else .ok { documents := compiledDocuments types, symbols := symbols, advisories := found }

variable {σ : Type} {ids : IdAllocator σ} {registry : Registry} {documents : AuthoredTypes}
  {state state' : σ}

theorem compile_of_structured {types : List StructuredType}
    (h : structureTypes ids registry documents.toList state = (.ok types, state')) :
    compile ids registry documents state = (finish registry types, state') := by
  unfold compile
  rw [h]
  simp only [finish]
  by_cases hrelations : registry.hasRelations
  · simp only [hrelations, if_true]
    generalize indexTypes _ _ = indexed
    cases indexed <;> rfl
  · simp only [hrelations, Bool.false_eq_true, if_false]

/-- The ids that a compilation gives to the declared fields of a type, in order. -/
def IdAllocator.given (ids : IdAllocator σ) (documents : AuthoredTypes) (state : σ)
    (type : TypeRef) : List String :=
  givenTo type (requests documents.toList) (ids.run (requests documents.toList) state).1

/-- Types that resolve, with the ids that a compilation gives to them. -/
def structuredTypes (ids : IdAllocator σ) (registry : Registry) (documents : AuthoredTypes)
    (state : σ) (types : List ResolvedType) : List StructuredType :=
  types.map fun type => type.structured registry (ids.given documents state type.owner)

theorem compile_of_resolved {types : List ResolvedType}
    (h : resolveTypes registry documents.toList = .ok types) :
    compile ids registry documents state =
      (finish registry (structuredTypes ids registry documents state types),
        (ids.run (requests documents.toList) state).2) :=
  compile_of_structured (structureTypes_ok h documents.keys_nodup)

theorem compile_of_unresolved {error : LinkError}
    (h : resolveTypes registry documents.toList = .error error) :
    (compile ids registry documents state).1 = .error error := by
  have hfailed : (structureTypes ids registry documents.toList state).1 = .error error :=
    structureTypes_error h
  unfold compile
  split
  · next heq => rw [heq] at hfailed; cases hfailed; rfl
  · next heq => rw [heq] at hfailed; cases hfailed

/-- A compilation that succeeds has resolved all types and made all requests. -/
theorem of_compile_ok {report : Report}
    (h : compile ids registry documents state = (.ok report, state')) :
    ∃ types, resolveTypes registry documents.toList = .ok types ∧
      finish registry (structuredTypes ids registry documents state types) = .ok report ∧
      (ids.run (requests documents.toList) state).2 = state' := by
  cases htypes : resolveTypes registry documents.toList with
  | error error =>
      have hfailed : (compile ids registry documents state).1 = .error error :=
        compile_of_unresolved htypes
      rw [h] at hfailed
      cases hfailed
  | ok types =>
      rw [compile_of_resolved htypes] at h
      rcases Prod.mk.inj h with ⟨hfinish, hstate⟩
      exact ⟨types, rfl, hfinish, hstate⟩

/-- A compilation that fails has made the first of its requests, if not all. -/
theorem compile_requests (ids : IdAllocator σ) (registry : Registry) (documents : AuthoredTypes)
    (state : σ) :
    ∃ made, made <+: requests documents.toList ∧
      (compile ids registry documents state).2 = (ids.run made state).2 := by
  obtain ⟨made, hmade, hstate⟩ := structureTypes_requests ids registry documents.toList state
  refine ⟨made, hmade, ?_⟩
  rw [← hstate]
  cases hstructured : structureTypes ids registry documents.toList state with
  | mk result state' =>
      cases result with
      | error error =>
          unfold compile
          rw [hstructured]
      | ok types => rw [compile_of_structured hstructured]

/-! ## Sections that change -/

theorem Reported.mapM_value {α β : Type} (f : α → Reported β) (items : List α) :
    (items.mapM f).value = items.map fun item => (f item).value := by
  induction items with
  | nil => rfl
  | cons item items ih =>
      rw [List.mapM_cons]
      simp only [bind_value, pure_value, ih, List.map_cons]

theorem Reported.mapM_advisories {α β : Type} (f : α → Reported β) (items : List α) :
    (items.mapM f).advisories = items.flatMap fun item => (f item).advisories := by
  induction items with
  | nil => rfl
  | cons item items ih =>
      rw [List.mapM_cons]
      simp only [bind_advisories, pure_advisories, ih, List.append_nil, List.flatMap_cons]

/-- What the later stages leave alone. -/
def StructuredType.outline (type : StructuredType) :
    TypeRef × TypeDocument × Option CompiledData :=
  (type.owner, type.authored, type.document.data)

theorem outline_present (linker : Linker) (type : StructuredType) :
    (type.present linker).value.outline = type.outline := rfl

theorem outline_index {linker : Linker} {type : StructuredType} {indexed : Reported StructuredType}
    (h : type.index linker = .ok indexed) : indexed.value.outline = type.outline := by
  unfold StructuredType.index at h
  cases hsearch : SectionLinker.searchIndex ⟨linker, type.owner⟩ type.authored with
  | error error => rw [hsearch] at h; cases h
  | ok found => rw [hsearch] at h; cases h; rfl

open Reported in
theorem outline_indexTypes {linker : Linker} {types : List StructuredType}
    {indexed : Reported (List StructuredType)} (h : indexTypes linker types = .ok indexed) :
    indexed.value.map StructuredType.outline = types.map StructuredType.outline := by
  induction types generalizing indexed with
  | nil => cases h; rfl
  | cons type types ih =>
      rw [indexTypes] at h
      split at h
      · cases h
      · next first hfirst =>
          split at h
          · cases h
          · next rest hrest =>
              cases h
              simp only [bind_value, pure_value, List.map_cons, outline_index hfirst, ih hrest]

theorem outline_finish {types : List StructuredType} {report : Report}
    (h : finish registry types = .ok report) :
    report.symbols = publishedSymbols types ∧ ∃ final, report.documents = compiledDocuments final ∧
      final.map StructuredType.outline = types.map StructuredType.outline := by
  unfold finish at h
  by_cases hrelations : registry.hasRelations
  · simp only [hrelations, if_true] at h
    split at h
    · cases h
    · next indexed hindexed =>
        cases h
        refine ⟨rfl, indexed.value, rfl, ?_⟩
        rw [outline_indexTypes hindexed, Reported.mapM_value, List.map_map]
        apply List.map_congr_left
        intro type _
        exact outline_present _ type
  · simp only [hrelations, Bool.false_eq_true, if_false] at h
    cases h
    exact ⟨rfl, types, rfl, rfl⟩

/-! ## Failures -/

/-- The groups of the search-index section resolve, if there is such a section. -/
def TypeDocument.indexable (doc : TypeDocument) (registry : Registry) : Bool :=
  match doc.search with
  | none => true
  | some search => (search.resolve registry).isOk

theorem SearchSection.isOk_resolve {search other : SearchSection}
    (h : search.permissions = other.permissions) :
    (search.resolve registry).isOk = (other.resolve registry).isOk := by
  unfold resolve
  rw [h]
  cases other.permissions with
  | none => rfl
  | some permissions =>
      dsimp only
      cases registry.resolvePermissions permissions <;> rfl

theorem isOk_index (linker : Linker) (type : StructuredType) :
    (type.index linker).isOk = type.authored.indexable linker.registry := by
  unfold StructuredType.index SectionLinker.searchIndex TypeDocument.indexable
  cases type.authored.search with
  | none => rfl
  | some search =>
      have hresolve : ((SectionLinker.searchFields ⟨linker, type.owner⟩ search).value.resolve
          linker.registry).isOk = (search.resolve linker.registry).isOk :=
        SearchSection.isOk_resolve rfl
      refine Eq.trans ?_ hresolve
      dsimp only
      cases (SectionLinker.searchFields ⟨linker, type.owner⟩ search).value.resolve
        linker.registry <;> rfl

theorem isOk_indexTypes (linker : Linker) (types : List StructuredType) :
    (indexTypes linker types).isOk =
      types.all fun type => type.authored.indexable linker.registry := by
  induction types with
  | nil => rfl
  | cons type types ih =>
      rw [List.all_cons, ← isOk_index, ← ih, indexTypes]
      cases type.index linker with
      | error error => rfl
      | ok first => cases indexTypes linker types <;> rfl

/-- Ids have no part in whether the later stages succeed. -/
theorem isOk_finish (registry : Registry) (types : List StructuredType) :
    (finish registry types).isOk =
      (!registry.hasRelations || types.all fun type => type.authored.indexable registry) := by
  unfold finish
  by_cases hrelations : registry.hasRelations
  · simp only [hrelations, if_true, Bool.not_true, Bool.false_or]
    have hindex := isOk_indexTypes ⟨registry, publishedSymbols types⟩
      (types.mapM (StructuredType.present ⟨registry, publishedSymbols types⟩)).value
    rw [Reported.mapM_value, List.all_map] at hindex
    rw [Reported.mapM_value]
    refine Eq.trans ?_ hindex
    split <;> next heq => rw [heq]; rfl
  · simp [hrelations]
    rfl

theorem isOk_finish_structuredTypes (ids : IdAllocator σ) (registry : Registry)
    (documents : AuthoredTypes) (state : σ) (types : List ResolvedType) :
    (finish registry (structuredTypes ids registry documents state types)).isOk =
      (!registry.hasRelations || types.all fun type => type.authored.indexable registry) := by
  have hauthored : ∀ (type : ResolvedType) (given : List String),
      (type.structured registry given).authored = type.authored := by
    intro type given
    unfold ResolvedType.structured
    cases type.data <;> rfl
  rw [isOk_finish, structuredTypes, List.all_map]
  simp only [Function.comp_def, hauthored]

/-- Whether a compilation succeeds does not depend on how ids are given. -/
theorem compile_ok_of_resolved {types : List ResolvedType} {report : Report} {τ : Type}
    (htypes : resolveTypes registry documents.toList = .ok types)
    (hfinish : finish registry (structuredTypes ids registry documents state types) = .ok report)
    (ids' : IdAllocator τ) (start : τ) :
    ∃ report', compile ids' registry documents start =
        (.ok report', (ids'.run (requests documents.toList) start).2) ∧
      finish registry (structuredTypes ids' registry documents start types) = .ok report' := by
  have hok : (finish registry (structuredTypes ids' registry documents start types)).isOk := by
    rw [isOk_finish_structuredTypes, ← isOk_finish_structuredTypes ids registry documents state,
      hfinish]
    rfl
  rw [compile_of_resolved htypes]
  cases hreport : finish registry (structuredTypes ids' registry documents start types) with
  | error error => rw [hreport] at hok; cases hok
  | ok report' => exact ⟨report', rfl, rfl⟩

theorem exists_report (h : (compile ids registry documents state).1.isOk) :
    ∃ report state', compile ids registry documents state = (.ok report, state') := by
  cases hresult : compile ids registry documents state with
  | mk result state' =>
      cases result with
      | error error => rw [hresult] at h; cases h
      | ok report => exact ⟨report, state', rfl⟩

end SchemaLink
