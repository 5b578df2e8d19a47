import SchemaLink.Proofs.Compilation.Indexing
import SchemaLink.Proofs.Registry.Groups

/-! # Failures of a compilation

A compilation fails just if a reference to a group does not resolve, and then for the first
one that does not. The references of all data sections come first, type by type, and those
of the search-index sections after them, if there are relations to follow. -/

namespace SchemaLink

/-! ## References of documents -/

def FieldDeclaration.references (field : FieldDeclaration) : List String :=
  field.permissions.toList.flatMap Permissions.references

/-- The references of the fields in order of declaration, then those of the section itself. -/
def DataSection.references (data : DataSection) : List String :=
  data.fields.flatMap FieldDeclaration.references ++ data.permissions.references

def SearchSection.references (search : SearchSection) : List String :=
  search.permissions.toList.flatMap Permissions.references

namespace TypeDocument

def dataReferences (doc : TypeDocument) : List String :=
  doc.data.toList.flatMap DataSection.references

def searchReferences (doc : TypeDocument) : List String :=
  doc.search.toList.flatMap SearchSection.references

end TypeDocument

/-- References with the type whose document they are in, type by type. -/
def ownedReferences (references : TypeDocument → List String)
    (docs : List (TypeRef × TypeDocument)) : List (TypeRef × String) :=
  docs.flatMap fun (owner, doc) => (references doc).map fun reference => (owner, reference)

/-- The references that a compilation resolves, in order. -/
def groupReferences (registry : Registry) (documents : AuthoredTypes) : List (TypeRef × String) :=
  ownedReferences TypeDocument.dataReferences documents.toList ++
    if registry.hasRelations then
      ownedReferences TypeDocument.searchReferences documents.toList
    else []

/-! ## First failures -/

section FirstRefusal

variable (registry : Registry)

/-- Why a reference in the document of a type does not resolve, if it does not. -/
def Registry.refusalIn? (owned : TypeRef × String) : Option LinkError :=
  (registry.refusal? owned.2).map (.inType owned.1)

theorem findSome?_refusalIn? (owner : TypeRef) (references : List String) :
    (references.map fun reference => (owner, reference)).findSome? registry.refusalIn? =
      (references.findSome? registry.refusal?).map (.inType owner) := by
  rw [List.findSome?_map, List.map_findSome?]
  rfl

theorem FieldDeclaration.failure?_resolve (field : FieldDeclaration) :
    failure? (field.resolve registry) = field.references.findSome? registry.refusal? := by
  unfold resolve references
  cases field.permissions with
  | none => rfl
  | some permissions =>
      rw [Option.toList_some, List.flatMap_singleton, ← Registry.failure?_resolvePermissions]
      exact failure?_map _ _

theorem SearchSection.failure?_resolve (search : SearchSection) :
    failure? (search.resolve registry) = search.references.findSome? registry.refusal? := by
  unfold resolve references
  cases search.permissions with
  | none => rfl
  | some permissions =>
      rw [Option.toList_some, List.flatMap_singleton, ← Registry.failure?_resolvePermissions]
      exact failure?_map _ _

theorem DataSection.failure?_resolve (data : DataSection) :
    failure? (data.resolve registry) = data.references.findSome? registry.refusal? := by
  have hfields : failure? (data.fields.mapM fun field => field.resolve registry) =
      (data.fields.flatMap FieldDeclaration.references).findSome? registry.refusal? := by
    rw [failure?_mapM, findSome?_flatMap]
    simp only [FieldDeclaration.failure?_resolve]
  rw [references, List.findSome?_append, ← hfields, ← Registry.failure?_resolvePermissions,
    resolve]
  cases data.fields.mapM fun field => field.resolve registry with
  | error error => rfl
  | ok fields => exact failure?_map _ _

theorem failure?_resolveType (owner : TypeRef) (doc : TypeDocument) :
    failure? (resolveType registry owner doc) =
      doc.dataReferences.findSome? registry.refusal? := by
  unfold resolveType TypeDocument.dataReferences
  cases doc.data with
  | none => rfl
  | some data =>
      rw [Option.toList_some, List.flatMap_singleton, ← DataSection.failure?_resolve]
      exact failure?_map _ _

theorem failure?_resolveTypes (docs : List (TypeRef × TypeDocument)) :
    failure? (resolveTypes registry docs) =
      (ownedReferences TypeDocument.dataReferences docs).findSome? registry.refusalIn? := by
  induction docs with
  | nil => rfl
  | cons entry docs ih =>
      rcases entry with ⟨owner, doc⟩
      rw [ownedReferences, List.flatMap_cons, List.findSome?_append, findSome?_refusalIn?,
        ← failure?_resolveType registry owner]
      rw [ownedReferences] at ih
      rw [← ih, resolveTypes]
      cases resolveType registry owner doc with
      | error error => rfl
      | ok type => exact failure?_map _ _

theorem TypeDocument.failure?_resolveSearch (owner : TypeRef) (doc : TypeDocument) :
    failure? (doc.resolveSearch registry owner) =
      (doc.searchReferences.findSome? registry.refusal?).map (.inType owner) := by
  unfold resolveSearch searchReferences
  cases doc.search with
  | none => rfl
  | some search =>
      rw [Option.toList_some, List.flatMap_singleton, ← SearchSection.failure?_resolve]
      dsimp only
      cases search.resolve registry <;> rfl

theorem failure?_finish (types : List StructuredType) :
    failure? (finish registry types) =
      if registry.hasRelations then
        (ownedReferences TypeDocument.searchReferences
          (types.map fun type => (type.owner, type.authored))).findSome? registry.refusalIn?
      else none := by
  by_cases hrelations : registry.hasRelations
  · rw [finish_of_relations hrelations, failure?_map, failure?_mapM, if_pos hrelations,
      ownedReferences, findSome?_flatMap, List.findSome?_map]
    congr 1
    funext type
    rw [StructuredType.resolveSearch, TypeDocument.failure?_resolveSearch]
    exact (findSome?_refusalIn? registry type.owner _).symm
  · unfold finish
    simp only [hrelations, Bool.false_eq_true, if_false]
    rfl

/-- A compilation comes to the first refusal among its references. -/
theorem failure?_compile {σ : Type} (ids : IdAllocator σ) (documents : AuthoredTypes)
    (state : σ) :
    failure? (compile ids registry documents state).1 =
      (groupReferences registry documents).findSome? registry.refusalIn? := by
  rw [groupReferences, List.findSome?_append, ← failure?_resolveTypes]
  cases htypes : resolveTypes registry documents.toList with
  | error error => rw [compile_of_unresolved htypes]; rfl
  | ok types =>
      have hnone : failure? (.ok types : Except LinkError (List ResolvedType)) = none := rfl
      rw [compile_of_resolved htypes, failure?_finish, structuredTypes_authored htypes, hnone,
        Option.none_or]
      by_cases hrelations : registry.hasRelations
      · simp only [hrelations, if_true]
      · simp only [hrelations, Bool.false_eq_true, if_false, List.findSome?_nil]

end FirstRefusal

/-- A compilation succeeds just if every reference resolves. It fails for the first one that does
not, in the type that this one belongs to, with what is wrong with it. -/
theorem compile_error_iff {σ : Type} (ids : IdAllocator σ) (registry : Registry)
    (documents : AuthoredTypes) (state : σ) :
    let outcome := (compile ids registry documents state).1
    let references := groupReferences registry documents
    (outcome.isOk ↔ ∀ owned ∈ references, registry.Resolves owned.2) ∧
    ∀ error, outcome = .error error ↔
      ∃ before owner reference after cause,
        references = before ++ (owner, reference) :: after ∧
        (∀ owned ∈ before, registry.Resolves owned.2) ∧
        registry.Refuses reference cause ∧ error = .inType owner cause := by
  intro outcome references
  have hfailure : failure? outcome = references.findSome? registry.refusalIn? :=
    failure?_compile registry ids documents state
  have hresolves : ∀ owned, registry.refusalIn? owned = none ↔ registry.Resolves owned.2 := by
    intro owned
    rw [Registry.refusalIn?, Option.map_eq_none_iff, Registry.refusal?_eq_none_iff]
  constructor
  · rw [← failure?_eq_none_iff, hfailure, List.findSome?_eq_none_iff]
    exact forall₂_congr fun owned _ => hresolves owned
  · intro error
    rw [← failure?_eq_some_iff, hfailure, List.findSome?_eq_some_iff]
    constructor
    · rintro ⟨before, ⟨owner, reference⟩, after, hsplit, hrefusal, hbefore⟩
      obtain ⟨cause, hcause, rfl⟩ := Option.map_eq_some_iff.1 hrefusal
      exact ⟨before, owner, reference, after, cause, hsplit,
        fun owned howned => (hresolves owned).1 (hbefore owned howned),
        Registry.refusal?_eq_some_iff.1 hcause, rfl⟩
    · rintro ⟨before, owner, reference, after, cause, hsplit, hbefore, hcause, rfl⟩
      refine ⟨before, (owner, reference), after, hsplit, ?_,
        fun owned howned => (hresolves owned).2 (hbefore owned howned)⟩
      exact Option.map_eq_some_iff.2 ⟨cause, Registry.refusal?_eq_some_iff.2 hcause, rfl⟩

/-- The groups of a field come before those of the section that declares it. -/
example :
    let readers : Permissions := .ofList [("get", ["lib.readers"])]
    let title : FieldDeclaration := { systemName := "title", permissions := some readers }
    let book : TypeDocument :=
      { data := some { fields := [title], permissions := .ofList [("get", ["readers"])] } }
    failure? (compile (StableIds.allocate lengthening) {} (.ofList [(.entity "book", book)])
      (.start .empty 0)).1 = some (.inType (.entity "book") (.unknownGroup "lib.readers")) := by
  decide

end SchemaLink
