import SchemaLink.Compilation.Structure
import SchemaLink.Proofs.Compilation.Requests
import SchemaLink.Proofs.Traversal

/-! # Resolution and allocation apart

Whether the groups of all types resolve, and to what, has nothing to do with ids. Once
they do, structuring the types makes one request for every declaration, in order, and
hands each type the ids that its own declarations were given. -/

namespace SchemaLink

/-! ## Resolution -/

/-- A data section with all its groups resolved, those of the fields first. -/
def DataSection.resolve (data : DataSection) (registry : Registry) :
    Except LinkError DataSection :=
  match data.fields.mapM fun field => field.resolve registry with
  | .error error => .error error
  | .ok fields =>
    (registry.resolvePermissions data.permissions).map fun permissions => ⟨fields, permissions⟩

/-- A type on its way through a compilation, with the groups of its data section resolved. -/
structure ResolvedType where
  owner : TypeRef
  authored : TypeDocument
  data : Option DataSection

namespace ResolvedType

/-- The resolved fields, in order of declaration. -/
def fields (type : ResolvedType) : List FieldDeclaration :=
  match type.data with
  | none => []
  | some data => data.fields

/-- The structure of the type, once its declarations were given ids. -/
def structured (type : ResolvedType) (registry : Registry) (given : List String) :
    StructuredType :=
  let ends := checkEnds registry type.owner type.authored
  match type.data with
  | none =>
    { owner := type.owner
      authored := type.authored
      document := { detail := type.authored.detail, source := type.authored.source }
      lookup := none
      advisories := ends }
  | some data =>
    let declared := (given.zip data.fields).map fun (id, field) => (field.systemName, id)
    { owner := type.owner
      authored := type.authored
      document :=
        { detail := type.authored.detail
          source := type.authored.source
          data := some
            { fields := .ofList (given.zip data.fields), permissions := data.permissions } }
      lookup := some (.ofList declared)
      advisories :=
        ends ++ (repeatedNames .initial declared).map (.duplicateField type.owner) }

end ResolvedType

/-- Resolve the groups of one type. -/
def resolveType (registry : Registry) (owner : TypeRef) (doc : TypeDocument) :
    Except LinkError ResolvedType :=
  match doc.data with
  | none => .ok ⟨owner, doc, none⟩
  | some data => (data.resolve registry).map fun data => ⟨owner, doc, some data⟩

/-- Resolve the groups of types, one after another up to the first error. -/
def resolveTypes (registry : Registry) :
    List (TypeRef × TypeDocument) → Except LinkError (List ResolvedType)
  | [] => .ok []
  | (owner, doc) :: docs =>
    match resolveType registry owner doc with
    | .error error => .error (.inType owner error)
    | .ok type => (resolveTypes registry docs).map (type :: ·)

section Resolution

variable {registry : Registry} {owner : TypeRef} {doc : TypeDocument}

theorem DataSection.resolve_eq_ok {data resolved : DataSection}
    (h : data.resolve registry = .ok resolved) :
    data.fields.mapM (fun field => field.resolve registry) = .ok resolved.fields ∧
      registry.resolvePermissions data.permissions = .ok resolved.permissions := by
  unfold resolve at h
  split at h
  · cases h
  · next fields hfields =>
    obtain ⟨permissions, hpermissions, rfl⟩ := exists_of_map_eq_ok h
    exact ⟨hfields, hpermissions⟩

/-- A type that resolves is the authored one, with its data section resolved if it has one. -/
theorem resolveType_eq_ok {type : ResolvedType} (h : resolveType registry owner doc = .ok type) :
    type.owner = owner ∧ type.authored = doc ∧
      Option.Rel (fun authored resolved => authored.resolve registry = .ok resolved) doc.data
        type.data := by
  unfold resolveType at h
  split at h
  · next hdata =>
    cases h
    refine ⟨rfl, rfl, ?_⟩
    rw [hdata]
    exact .none
  · next authored hdata =>
    obtain ⟨resolved, hresolved, rfl⟩ := exists_of_map_eq_ok h
    refine ⟨rfl, rfl, ?_⟩
    rw [hdata]
    exact .some hresolved

theorem resolveTypes_cons_eq_ok {docs : List (TypeRef × TypeDocument)} {types : List ResolvedType}
    (h : resolveTypes registry ((owner, doc) :: docs) = .ok types) :
    ∃ type rest, resolveType registry owner doc = .ok type ∧
      resolveTypes registry docs = .ok rest ∧ types = type :: rest := by
  rw [resolveTypes] at h
  split at h
  · cases h
  · next type htype =>
    obtain ⟨rest, hrest, rfl⟩ := exists_of_map_eq_ok h
    exact ⟨type, rest, htype, hrest, rfl⟩

theorem forall₂_of_resolveTypes {docs : List (TypeRef × TypeDocument)} {types : List ResolvedType}
    (h : resolveTypes registry docs = .ok types) :
    List.Forall₂ (fun entry type => resolveType registry entry.1 entry.2 = .ok type) docs
      types := by
  induction docs generalizing types with
  | nil => cases h; exact .nil
  | cons entry docs ih =>
      obtain ⟨type, rest, htype, hrest, rfl⟩ := resolveTypes_cons_eq_ok h
      exact .cons htype (ih hrest)

theorem owners_of_resolveTypes {docs : List (TypeRef × TypeDocument)} {types : List ResolvedType}
    (h : resolveTypes registry docs = .ok types) :
    types.map (fun type => (type.owner, type.authored)) = docs := by
  induction docs generalizing types with
  | nil => cases h; rfl
  | cons entry docs ih =>
      obtain ⟨type, rest, htype, hrest, rfl⟩ := resolveTypes_cons_eq_ok h
      obtain ⟨howner, hauthored, -⟩ := resolveType_eq_ok htype
      rw [List.map_cons, ih hrest, howner, hauthored]

end Resolution

/-! ## Structuring -/

variable {σ : Type} {ids : IdAllocator σ} {registry : Registry} {owner : TypeRef}

theorem placeFields_ok {fields resolved : List FieldDeclaration} {state : σ}
    (h : fields.mapM (fun field => field.resolve registry) = .ok resolved) :
    placeFields ids registry owner fields state =
      (.ok ((ids.run (fieldRequests owner fields) state).1.zip resolved),
        (ids.run (fieldRequests owner fields) state).2) := by
  have hresolved := forall₂_of_mapM h
  clear h
  induction hresolved generalizing state with
  | nil => rfl
  | cons hfield hrest ih =>
      simp only [placeFields, hfield, ih]
      rfl

theorem placeFields_error {fields : List FieldDeclaration} {error : LinkError} {state : σ}
    (h : fields.mapM (fun field => field.resolve registry) = .error error) :
    (placeFields ids registry owner fields state).1 = .error error := by
  induction fields generalizing state with
  | nil => cases h
  | cons field fields ih =>
      rw [List.mapM_cons] at h
      cases hfield : field.resolve registry with
      | error error' =>
          rw [hfield] at h
          cases h
          simp only [placeFields, hfield]
      | ok first =>
          cases hrest : fields.mapM fun field => field.resolve registry with
          | error error' =>
              rw [hfield, hrest] at h
              cases h
              have hplaced : (placeFields ids registry owner fields
                  (ids owner field.systemName state).2).1 = .error error := ih hrest
              simp only [placeFields, hfield]
              split
              · next heq => rw [heq] at hplaced; exact hplaced
              · next heq => rw [heq] at hplaced; cases hplaced
          | ok rest => rw [hfield, hrest] at h; cases h

theorem structureType_ok {doc : TypeDocument} {type : ResolvedType} {state : σ}
    (h : resolveType registry owner doc = .ok type) :
    structureType ids registry owner doc state =
      (.ok (type.structured registry (ids.run (fieldRequests owner doc.declared) state).1),
        (ids.run (fieldRequests owner doc.declared) state).2) := by
  rcases type with ⟨owner, doc, data⟩
  obtain ⟨rfl, rfl, hdata⟩ := resolveType_eq_ok h
  unfold structureType TypeDocument.declared
  cases hauthored : doc.data with
  | none =>
      rw [hauthored] at hdata
      cases hdata
      rfl
  | some authored =>
      rw [hauthored] at hdata
      cases hdata with
      | some hresolved =>
          obtain ⟨hfields, hpermissions⟩ := DataSection.resolve_eq_ok hresolved
          simp only [placeFields_ok hfields, hpermissions]
          rfl

theorem structureType_error {doc : TypeDocument} {error : LinkError} {state : σ}
    (h : resolveType registry owner doc = .error error) :
    (structureType ids registry owner doc state).1 = .error error := by
  unfold resolveType at h
  unfold structureType
  cases hdata : doc.data with
  | none => rw [hdata] at h; cases h
  | some data =>
      rw [hdata] at h
      simp only [DataSection.resolve] at h
      cases hfields : data.fields.mapM fun field => field.resolve registry with
      | error error' =>
          rw [hfields] at h
          cases h
          have hplaced : (placeFields ids registry owner data.fields state).1 = .error error :=
            placeFields_error hfields
          dsimp only
          split
          · next heq => rw [heq] at hplaced; cases hplaced; rfl
          · next heq => rw [heq] at hplaced; cases hplaced
      | ok fields =>
          cases hpermissions : registry.resolvePermissions data.permissions with
          | error error' =>
              rw [hfields, hpermissions] at h
              cases h
              simp only [placeFields_ok hfields, hpermissions]
          | ok permissions => rw [hfields, hpermissions] at h; cases h

/-! ## All types -/

/-- Types that resolve are all structured, each with the ids that it was given. -/
theorem structureTypes_ok {docs : List (TypeRef × TypeDocument)} {types : List ResolvedType}
    {state : σ} (h : resolveTypes registry docs = .ok types)
    (hnodup : (docs.map Prod.fst).Nodup) :
    structureTypes ids registry docs state =
      (.ok (types.map fun type => type.structured registry
          (givenTo type.owner (requests docs) (ids.run (requests docs) state).1)),
        (ids.run (requests docs) state).2) := by
  induction docs generalizing types state with
  | nil => cases h; rfl
  | cons entry docs ih =>
      rcases entry with ⟨owner, doc⟩
      rcases List.nodup_cons.1 hnodup with ⟨howner, hdocs⟩
      obtain ⟨type, rest, htype, hrest, rfl⟩ := resolveTypes_cons_eq_ok h
      obtain ⟨rfl, rfl, -⟩ := resolveType_eq_ok htype
      have hrequests : requests ((type.owner, type.authored) :: docs) =
          fieldRequests type.owner type.authored.declared ++ requests docs := rfl
      have hlength := ids.length_run (fieldRequests type.owner type.authored.declared) state
      have hothers : rest.map (fun other => other.structured registry
          (givenTo other.owner (requests docs) (ids.run (requests docs)
            (ids.run (fieldRequests type.owner type.authored.declared) state).2).1)) =
          rest.map fun other => other.structured registry
            (givenTo other.owner (requests ((type.owner, type.authored) :: docs))
              (ids.run (requests ((type.owner, type.authored) :: docs)) state).1) := by
        apply List.map_congr_left
        intro other hother
        have hmem : other.owner ∈ docs.map Prod.fst := by
          rw [← owners_of_resolveTypes hrest, List.map_map]
          exact List.mem_map_of_mem hother
        have hne : other.owner ≠ type.owner := fun heq => howner (heq ▸ hmem)
        rw [hrequests, IdAllocator.run_append, givenTo_rest hne hlength]
      simp only [structureTypes, structureType_ok htype, ih hrest hdocs, hothers, List.map_cons]
      rw [hrequests, IdAllocator.run_append, givenTo_head howner hlength]

theorem structureTypes_error {docs : List (TypeRef × TypeDocument)} {error : LinkError} {state : σ}
    (h : resolveTypes registry docs = .error error) :
    (structureTypes ids registry docs state).1 = .error error := by
  induction docs generalizing state with
  | nil => cases h
  | cons entry docs ih =>
      rcases entry with ⟨owner, doc⟩
      rw [resolveTypes] at h
      cases htype : resolveType registry owner doc with
      | error error' =>
          rw [htype] at h
          cases h
          have hfirst : (structureType ids registry owner doc state).1 = .error error' :=
            structureType_error htype
          simp only [structureTypes]
          split
          · next heq => rw [heq] at hfirst; cases hfirst; rfl
          · next heq => rw [heq] at hfirst; cases hfirst
      | ok type =>
          cases hrest : resolveTypes registry docs with
          | error error' =>
              rw [htype, hrest] at h
              cases h
              have hlater : (structureTypes ids registry docs
                  (ids.run (fieldRequests owner doc.declared) state).2).1 = .error error :=
                ih hrest
              simp only [structureTypes, structureType_ok htype]
              split
              · next heq => rw [heq] at hlater; exact hlater
              · next heq => rw [heq] at hlater; cases hlater
          | ok rest => rw [htype, hrest] at h; cases h

/-! ## Requests made

Where the groups of a field do not resolve, the requests so far have been made, and no
other. -/

theorem placeFields_requests (ids : IdAllocator σ) (registry : Registry) (owner : TypeRef)
    (fields : List FieldDeclaration) (state : σ) :
    ∃ made, made <+: fieldRequests owner fields ∧
      (placeFields ids registry owner fields state).2 = (ids.run made state).2 := by
  induction fields generalizing state with
  | nil => exact ⟨[], List.prefix_rfl, rfl⟩
  | cons field fields ih =>
      simp only [placeFields]
      cases field.resolve registry with
      | error error =>
          exact ⟨[(owner, field.systemName)], by simp [fieldRequests], rfl⟩
      | ok resolved =>
          obtain ⟨made, hmade, hstate⟩ := ih (ids owner field.systemName state).2
          refine ⟨(owner, field.systemName) :: made, List.cons_prefix_cons.2 ⟨rfl, hmade⟩, ?_⟩
          rw [IdAllocator.run, ← hstate]
          dsimp only
          split <;> next heq => rw [heq]

theorem structureType_requests (ids : IdAllocator σ) (registry : Registry) (owner : TypeRef)
    (doc : TypeDocument) (state : σ) :
    ∃ made, made <+: fieldRequests owner doc.declared ∧
      (structureType ids registry owner doc state).2 = (ids.run made state).2 := by
  unfold structureType TypeDocument.declared
  cases doc.data with
  | none => exact ⟨[], List.nil_prefix, rfl⟩
  | some data =>
      obtain ⟨made, hmade, hstate⟩ := placeFields_requests ids registry owner data.fields state
      refine ⟨made, hmade, ?_⟩
      rw [← hstate]
      dsimp only
      split
      · next heq => rw [heq]
      · next heq =>
          rw [heq]
          cases registry.resolvePermissions data.permissions <;> rfl

/-- Types whose structure fails have made the first of their requests. -/
theorem structureTypes_requests (ids : IdAllocator σ) (registry : Registry)
    (docs : List (TypeRef × TypeDocument)) (state : σ) :
    ∃ made, made <+: requests docs ∧
      (structureTypes ids registry docs state).2 = (ids.run made state).2 := by
  induction docs generalizing state with
  | nil => exact ⟨[], List.nil_prefix, rfl⟩
  | cons entry docs ih =>
      rcases entry with ⟨owner, doc⟩
      have hrequests : requests ((owner, doc) :: docs) =
          fieldRequests owner doc.declared ++ requests docs := rfl
      rw [hrequests]
      cases hresolved : resolveType registry owner doc with
      | error error =>
          obtain ⟨made, hmade, hstate⟩ := structureType_requests ids registry owner doc state
          refine ⟨made, hmade.trans (List.prefix_append _ _), ?_⟩
          have hfailed : (structureType ids registry owner doc state).1 = .error error :=
            structureType_error hresolved
          rw [← hstate, structureTypes]
          split
          · next heq => rw [heq]
          · next heq => rw [heq] at hfailed; cases hfailed
      | ok type =>
          obtain ⟨made, hmade, hstate⟩ :=
            ih (ids.run (fieldRequests owner doc.declared) state).2
          refine ⟨fieldRequests owner doc.declared ++ made,
            (List.prefix_append_right_inj _).2 hmade, ?_⟩
          rw [IdAllocator.run_append, ← hstate]
          simp only [structureTypes, structureType_ok hresolved]
          split <;> next heq => rw [heq]

end SchemaLink
