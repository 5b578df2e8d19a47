import SchemaLink.Proofs.Compilation.GivenIds
import SchemaLink.Proofs.Compilation.Indexing
import SchemaLink.Proofs.Registry.Groups
import SchemaLink.Proofs.Traversal

/-! # What compilation leaves alone

A compiled document is the authored one with other references in it: templates, conditions
for showing a field, and permission groups. Nothing else in it is added, dropped, moved or
changed, and sections with paths are there only if there are relations to follow. -/

namespace SchemaLink

/-! ## Permission groups -/

/-- A reference names the group with an id. -/
def Registry.Identifies (registry : Registry) (reference id : String) : Prop :=
  ∃ table project groups group, RefersTo reference project group ∧
    registry.groups = some table ∧ table.find? project = some groups ∧ groups.find? group = some id

/-- A permission table has the same actions as an authored one, and in the place of every
reference the id of the group that it names. -/
def Permissions.ResolveTo (registry : Registry) (permissions resolved : Permissions) : Prop :=
  List.Forall₂ (fun entry result => result.1 = entry.1 ∧
    List.Forall₂ registry.Identifies entry.2 result.2) permissions.toList resolved.toList

section Groups

variable {registry : Registry}

theorem Registry.identifies_of_resolveGroup {reference id : String}
    (h : registry.resolveGroup reference = .ok id) : registry.Identifies reference id := by
  have hresolves : registry.Resolves reference := by
    rw [← refusal?_eq_none_iff, refusal?, h]
    rfl
  rcases hresolves with ⟨table, project, groups, group, found, hrefers, htable, hproject, hgroup⟩
  have hid : registry.groupId? project group = some found := by
    rw [groupId?, htable, Option.bind_some, hproject, Option.bind_some, hgroup]
  rw [resolveGroup_of_refersTo hrefers, hid] at h
  obtain rfl := Except.ok.inj h
  exact ⟨table, project, groups, group, hrefers, htable, hproject, hgroup⟩

theorem Registry.resolveTo_of_resolvePermissions {permissions resolved : Permissions}
    (h : registry.resolvePermissions permissions = .ok resolved) :
    permissions.ResolveTo registry resolved :=
  (forall₂_of_traverse h).imp fun _ _ hentry =>
    ⟨hentry.1, (forall₂_of_mapM hentry.2).imp fun _ _ => identifies_of_resolveGroup⟩

end Groups

/-! ## Data sections -/

/-- A field as it was declared, with its groups resolved. -/
structure FieldDeclaration.Relinked (registry : Registry) (declared field : FieldDeclaration) :
    Prop where
  eq : field = { declared with permissions := field.permissions }
  permissions : Option.Rel (Permissions.ResolveTo registry) declared.permissions field.permissions

/-- A data section with the declared fields under the ids that they were given. -/
structure DataSection.Relinked (registry : Registry) (given : List String) (data : DataSection)
    (compiled : CompiledData) : Prop where
  fields : ∀ id field, compiled.fields.find? id = some field →
    ∃ declared, (id, declared) ∈ given.zip data.fields ∧ declared.Relinked registry field
  ids : given.length = data.fields.length ∧ ∀ id ∈ given, (compiled.fields.find? id).isSome
  permissions : data.permissions.ResolveTo registry compiled.permissions

theorem FieldDeclaration.relinked_of_resolve {registry : Registry}
    {declared field : FieldDeclaration} (h : declared.resolve registry = .ok field) :
    declared.Relinked registry field := by
  obtain ⟨permissions, rfl, hpermissions⟩ := resolve_eq_ok h
  exact ⟨rfl, rel_imp (fun _ _ => Registry.resolveTo_of_resolvePermissions) hpermissions⟩

theorem DataSection.relinked_compiled {registry : Registry} {data resolved : DataSection}
    {given : List String} (h : data.resolve registry = .ok resolved)
    (hlength : given.length = data.fields.length) :
    data.Relinked registry given (resolved.compiled given) := by
  have hfields := ResolvedFields.of_resolve h
  refine ⟨fun id field hfield => ?_, ⟨hlength, fun id hid => ?_⟩,
    Registry.resolveTo_of_resolvePermissions (resolve_eq_ok h).2⟩
  · have hmem : (id, field) ∈ given.zip resolved.fields :=
      SortedMap.mem_of_mem_ofList (SortedMap.find?_eq_some_iff.1 hfield)
    obtain ⟨declared, hdeclared, hresolve⟩ := hfields.mem_zip_iff.1 hmem
    exact ⟨declared, hdeclared, FieldDeclaration.relinked_of_resolve hresolve⟩
  · apply SortedMap.isSome_find?_ofList
    rwa [List.map_fst_zip (Nat.le_of_eq (hlength.trans hfields.length_eq))]

/-! ## Sections with templates -/

/-- A field of a panel with another template, and with what becomes of its condition. -/
structure PanelField.Relinked (condition : String → String) (item linked : PanelField) : Prop where
  showCondition : linked.showCondition = item.showCondition.map condition
  extra : linked.extra = item.extra

/-- A panel with other templates in its label and in its fields. -/
structure Panel.Relinked (condition : String → String) (panel linked : Panel) : Prop where
  label : linked.label.isSome = panel.label.isSome
  fields : Option.Rel (List.Forall₂ (PanelField.Relinked condition)) panel.fields linked.fields
  extra : linked.extra = panel.extra

structure DisplaySection.Relinked (condition : String → String) (display linked : DisplaySection) :
    Prop where
  title : linked.title.isSome = display.title.isSome
  layout : Option.Rel (List.Forall₂ (Panel.Relinked condition)) display.layout linked.layout
  extra : linked.extra = display.extra

/-- Conditions in an edit section stay as they are. -/
structure EditSection.Relinked (edit linked : EditSection) : Prop where
  layout : Option.Rel (List.Forall₂ (Panel.Relinked id)) edit.layout linked.layout
  extra : linked.extra = edit.extra

/-- A field of the search index with other templates. What its kind does not use stays. -/
structure SearchField.Relinked (field linked : SearchField) : Prop where
  valueType : linked.valueType = field.valueType
  base : linked.base.isSome = field.base.isSome
  parts : linked.parts.map SortedMap.keys = field.parts.map SortedMap.keys
  start : linked.start.isSome = field.start.isSome
  finish : linked.finish.isSome = field.finish.isSome
  selector : linked.selector.isSome = field.selector.isSome
  filter : linked.filter.isSome = field.filter.isSome
  extra : linked.extra = field.extra
  bounds_unused : field.kind ≠ .interval → linked.start = field.start ∧ linked.finish = field.finish
  parts_unused : field.kind ≠ .nested → linked.base = field.base ∧ linked.parts = field.parts
  selector_unused : field.kind ≠ .simple → linked.selector = field.selector

structure SearchSection.Relinked (registry : Registry) (search linked : SearchSection) : Prop where
  fields : Option.Rel (List.Forall₂ SearchField.Relinked) search.fields linked.fields
  permissions : Option.Rel (Permissions.ResolveTo registry) search.permissions linked.permissions
  extra : linked.extra = search.extra

section Filled

variable (fill : Template → String) (condition : String → String)

theorem Template.isSome_fillOptional (place : String) (text anchor : Option String) :
    (fillOptional fill place text anchor).isSome = text.isSome := Option.isSome_map

/-- What is done to every item of a list that may be missing. -/
theorem rel_map_zipIdx {α : Type} {r : α → α → Prop} {f : α × Nat → α}
    (h : ∀ item i, r item (f (item, i))) (items : Option (List α)) :
    Option.Rel (List.Forall₂ r) items (items.map fun items => items.zipIdx.map f) :=
  rel_map (fun items => forall₂_zipIdx_map h items 0) items

theorem Panel.relinked_filled (place : String) (panel : Panel) :
    panel.Relinked condition (panel.filled fill condition place) where
  label := Template.isSome_fillOptional ..
  fields := rel_map_zipIdx (fun _ _ => ⟨rfl, rfl⟩) panel.fields
  extra := rfl

theorem rel_filledLayout (part : String) (layout : Option (List Panel)) :
    Option.Rel (List.Forall₂ (Panel.Relinked condition)) layout
      (filledLayout fill condition part layout) :=
  rel_map_zipIdx (fun panel i => panel.relinked_filled fill condition (panelPlace part i)) layout

theorem DisplaySection.relinked_filled (display : DisplaySection) :
    display.Relinked condition (display.filled fill condition) where
  title := Template.isSome_fillOptional ..
  layout := rel_filledLayout fill condition "display" display.layout
  extra := rfl

theorem EditSection.relinked_filled (edit : EditSection) : edit.Relinked (edit.filled fill) where
  layout := rel_filledLayout fill id "edit" edit.layout
  extra := rfl

theorem SearchField.relinked_filled (place : String) (field : SearchField) :
    field.Relinked (field.filled fill place) := by
  unfold filled filledValue
  cases hkind : field.kind with
  | nested =>
      constructor
      case parts =>
        rw [Option.map_map]
        congr 1
        funext parts
        simp [SortedMap.keys, SortedMap.mapWithKey]
      all_goals simp [Template.isSome_fillOptional, hkind]
  | interval => constructor <;> simp [Template.isSome_fillOptional, hkind]
  | simple => constructor <;> simp [Template.isSome_fillOptional, hkind]

/-- The groups of a search-index section are resolved apart from its templates. -/
theorem SearchSection.relinked_filled {registry : Registry} {search resolved : SearchSection}
    (h : search.resolve registry = .ok resolved) :
    search.Relinked registry (resolved.filled fill) := by
  obtain ⟨permissions, rfl, hpermissions⟩ := resolve_eq_ok h
  exact ⟨rel_map_zipIdx (fun field i => field.relinked_filled fill (fieldPlace i)) search.fields,
    rel_imp (fun _ _ => Registry.resolveTo_of_resolvePermissions) hpermissions, rfl⟩

end Filled

/-! ## Documents -/

/-- What a document is compiled to before paths are followed. -/
structure TypeDocument.Outlined (registry : Registry) (given : List String) (doc : TypeDocument)
    (compiled : CompiledDocument) : Prop where
  detail : compiled.detail = doc.detail
  source : compiled.source = doc.source
  data : Option.Rel (DataSection.Relinked registry given) doc.data compiled.data

/-- What becomes of the sections that need relations. -/
structure TypeDocument.Relinked (registry : Registry) (doc : TypeDocument)
    (compiled : CompiledDocument) : Prop where
  display : Option.Rel (DisplaySection.Relinked registry.resolveNames) doc.display compiled.display
  edit : Option.Rel EditSection.Relinked doc.edit compiled.edit
  search : Option.Rel (SearchSection.Relinked registry) doc.search compiled.search
  searchDisplay : compiled.searchDisplay = doc.searchDisplay

namespace StructuredType

variable {registry : Registry} {type : StructuredType}

theorem outlined_linked {doc : TypeDocument} {given : List String}
    (h : doc.Outlined registry given type.document) (linker : Linker)
    (search : Option SearchSection) :
    doc.Outlined registry given (type.linked linker search).document := by
  unfold linked indexed
  rw [present_eq]
  exact ⟨h.detail, h.source, h.data⟩

theorem relinked_linked (linker : Linker) {search : Option SearchSection}
    (h : type.resolveSearch linker.registry = .ok search) :
    type.authored.Relinked linker.registry (type.linked linker search).document := by
  unfold linked indexed
  rw [present_eq]
  refine ⟨?_, ?_, ?_, rfl⟩
  · exact rel_map (fun display => display.relinked_filled _ _) _
  · exact rel_map (fun edit => edit.relinked_filled _) _
  · unfold resolveSearch TypeDocument.resolveSearch at h
    split at h
    · next hauthored =>
      cases h
      rw [hauthored]
      exact .none
    · next authored hauthored =>
      split at h
      · cases h
      · next resolved hresolved =>
        cases h
        rw [hauthored]
        exact .some (SearchSection.relinked_filled _ hresolved)

end StructuredType

namespace ResolvedType

variable {registry : Registry} {owner : TypeRef} {doc : TypeDocument}

theorem document_structured (type : ResolvedType) (given : List String) :
    (type.structured registry given).document =
      { detail := type.authored.detail, source := type.authored.source,
        data := type.data.map fun data => data.compiled given } := by
  unfold structured
  cases type.data <;> rfl

theorem outlined_structured {type : ResolvedType} {given : List String}
    (h : resolveType registry owner doc = .ok type) (hlength : given.length = doc.declared.length) :
    doc.Outlined registry given (type.structured registry given).document := by
  obtain ⟨-, hauthored, hresolved⟩ := resolveType_eq_ok h
  rw [document_structured, hauthored]
  refine ⟨rfl, rfl, ?_⟩
  unfold TypeDocument.declared at hlength
  dsimp only
  generalize type.data = resolved at hresolved
  generalize doc.data = authored at hresolved hlength
  cases hresolved with
  | none => exact .none
  | some hresolved => exact .some (DataSection.relinked_compiled hresolved hlength)

end ResolvedType

/-! ## The whole report -/

section Reports

variable {σ : Type} {ids : IdAllocator σ} {registry : Registry} {documents : AuthoredTypes}
  {state state' : σ} {report : Report} {owner : TypeRef} {doc : TypeDocument}

theorem owner_linked (linker : Linker) (type : StructuredType) (search : Option SearchSection) :
    (type.linked linker search).owner = type.owner := by
  unfold StructuredType.linked StructuredType.indexed
  rw [present_eq]

theorem keys_of_compile (h : compile ids registry documents state = (.ok report, state')) :
    report.documents.keys = documents.keys := by
  obtain ⟨-, final, -, -, hdocuments, hfinal, -⟩ := documents_of_compile h
  have howners : (final.map fun type => (type.owner, type.document)).map Prod.fst =
      documents.keys := by
    rw [List.map_map, ← hfinal]
    rfl
  have hperm : report.documents.keys.Perm documents.keys := by
    rw [hdocuments, ← howners]
    exact (SortedMap.toList_ofList_perm (howners ▸ documents.keys_nodup)).map Prod.fst
  exact SortedMap.eq_of_perm_of_ascending (SortedMap.ascending_iff_keys.1 report.documents.ascending)
    (SortedMap.ascending_iff_keys.1 documents.ascending) hperm

/-- The document of a type in a report, stage by stage. -/
theorem document_of_compile (h : compile ids registry documents state = (.ok report, state'))
    (hdoc : documents.find? owner = some doc) :
    ∃ type compiled, resolveType registry owner doc = .ok type ∧
      report.documents.find? owner = some compiled ∧
      let structured := type.structured registry (ids.given documents state owner)
      if registry.hasRelations then
        ∃ search, structured.resolveSearch registry = .ok search ∧
          compiled = (structured.linked ⟨registry, report.symbols⟩ search).document
      else compiled = structured.document := by
  obtain ⟨types, htypes, hfinish, -⟩ := of_compile_ok h
  obtain ⟨type, hmem, rfl, htype⟩ := resolveType_of_mem htypes (SortedMap.find?_eq_some_iff.1 hdoc)
  have howners := owners_structuredTypes ids state htypes
  let structured := type.structured registry (ids.given documents state type.owner)
  have hstructured : structured ∈ structuredTypes ids registry documents state types :=
    List.mem_map_of_mem hmem
  have howner : structured.owner = type.owner := ResolvedType.owner_structured ..
  by_cases hrelations : registry.hasRelations = true
  · rw [finish_of_relations hrelations] at hfinish
    cases hsearches : (structuredTypes ids registry documents state types).mapM
        (StructuredType.resolveSearch registry) with
    | error error => rw [hsearches] at hfinish; cases hfinish
    | ok searches =>
        rw [hsearches] at hfinish
        cases hfinish
        let linker : Linker :=
          ⟨registry, publishedSymbols (structuredTypes ids registry documents state types)⟩
        have hpartners := forall₂_of_mapM hsearches
        obtain ⟨search, hsearch, hfinal⟩ :=
          exists_mem_zipWith (f := StructuredType.linked linker) hpartners hstructured
        have hfinalOwners : (List.zipWith (StructuredType.linked linker)
            (structuredTypes ids registry documents state types) searches).map
              StructuredType.owner = documents.keys := by
          rw [← howners]
          exact map_zipWith_of_forall₂ (owner_linked linker) hpartners
        refine ⟨type, (structured.linked linker search).document, htype, ?_, ?_⟩
        · exact (find?_compiledDocuments (hfinalOwners ▸ documents.keys_nodup)).2
            ⟨_, hfinal, (owner_linked ..).trans howner, rfl⟩
        · dsimp only
          rw [if_pos hrelations]
          exact ⟨search, hsearch, rfl⟩
  · rw [Bool.not_eq_true] at hrelations
    unfold finish at hfinish
    simp only [hrelations, Bool.false_eq_true, if_false] at hfinish
    cases hfinish
    refine ⟨type, structured.document, htype, ?_, ?_⟩
    · exact (find?_compiledDocuments (howners ▸ documents.keys_nodup)).2
        ⟨structured, hstructured, howner, rfl⟩
    · simp [hrelations, structured]

theorem relinked_of_compile (h : compile ids registry documents state = (.ok report, state'))
    (hdoc : documents.find? owner = some doc) :
    ∃ compiled, report.documents.find? owner = some compiled ∧
      doc.Outlined registry (ids.given documents state owner) compiled ∧
      if registry.hasRelations then doc.Relinked registry compiled
      else compiled.display = none ∧ compiled.edit = none ∧ compiled.search = none ∧
        compiled.searchDisplay = none := by
  obtain ⟨type, compiled, htype, hfound, hcompiled⟩ := document_of_compile h hdoc
  have houtlined := ResolvedType.outlined_structured htype (ids.length_given state hdoc)
  refine ⟨compiled, hfound, ?_⟩
  dsimp only at hcompiled
  by_cases hrelations : registry.hasRelations = true
  · rw [if_pos hrelations] at hcompiled ⊢
    obtain ⟨search, hsearch, rfl⟩ := hcompiled
    have hrelinked := StructuredType.relinked_linked ⟨registry, report.symbols⟩ hsearch
    rw [ResolvedType.authored_structured, (resolveType_eq_ok htype).2.1] at hrelinked
    exact ⟨StructuredType.outlined_linked houtlined _ _, hrelinked⟩
  · rw [if_neg hrelations] at hcompiled ⊢
    subst hcompiled
    refine ⟨houtlined, ?_⟩
    simp [ResolvedType.document_structured]

/-- Compilation changes nothing but references. It makes a document for every authored type and
for no other, and leaves the sections that need relations out of all documents or of none. -/
theorem compile_changes_references_only
    (h : compile ids registry documents state = (.ok report, state')) :
    report.documents.keys = documents.keys ∧
      ∀ owner doc, documents.find? owner = some doc →
        ∃ compiled, report.documents.find? owner = some compiled ∧
          doc.Outlined registry (ids.given documents state owner) compiled ∧
          if registry.hasRelations then doc.Relinked registry compiled
          else compiled.display = none ∧ compiled.edit = none ∧ compiled.search = none ∧
            compiled.searchDisplay = none :=
  ⟨keys_of_compile h, fun _ _ => relinked_of_compile h⟩

end Reports

/-! ## A book that editors change -/

def editorsRegistry : Registry where
  relations := some ∅
  groups := some (.ofList [("library", .ofList [("editors", "G1")])])

def editedBook : TypeDocument where
  detail := some (.string "A book")
  data := some {
    fields := [{
      systemName := "title"
      permissions := some (.ofList [("edit", ["library.editors"])]) }]
    permissions := .ofList [("create", []), ("delete", ["library.editors", "library.editors"])] }
  search := some { fields := some [
    { valueType := "keyword", selector := some "$title", start := some "$title" }] }

theorem editedBook_changes_references : ∃ report state compiled,
    compile (StableIds.allocate lengthening) editorsRegistry
        (.ofList [(.entity "book", editedBook)]) (.start .empty 1) = (.ok report, state) ∧
      report.documents.keys = [.entity "book"] ∧
      report.documents.find? (.entity "book") = some compiled ∧
      editedBook.Outlined editorsRegistry ["n"] compiled ∧
      editedBook.Relinked editorsRegistry compiled := by
  have hok : (compile (StableIds.allocate lengthening) editorsRegistry
    (.ofList [(.entity "book", editedBook)]) (.start .empty 1)).1.isOk = true := rfl
  obtain ⟨report, state, hreport⟩ := exists_report hok
  obtain ⟨hkeys, hdocuments⟩ := compile_changes_references_only hreport
  obtain ⟨compiled, hfound, houtlined, hrelinked⟩ := hdocuments (.entity "book") editedBook rfl
  exact ⟨report, state, compiled, hreport, hkeys, hfound, houtlined, hrelinked⟩

end SchemaLink
