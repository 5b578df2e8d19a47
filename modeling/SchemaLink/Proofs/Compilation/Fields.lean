import SchemaLink.Proofs.Compilation.Report

/-! # Fields in a report

The report has a document for every authored one. Its fields are the declared ones
with their groups resolved, each under the id that its declaration was given, and the
lookup that the type publishes binds each name to the id of its last declaration. -/

namespace SchemaLink

/-! ## Resolved fields -/

/-- A field that resolves is the declared one, with its groups resolved if it has any. -/
theorem FieldDeclaration.resolve_eq_ok {field resolved : FieldDeclaration}
    {registry : Registry} (h : field.resolve registry = .ok resolved) :
    ∃ permissions, resolved = { field with permissions := permissions } ∧
      Option.Rel (fun authored groups => registry.resolvePermissions authored = .ok groups)
        field.permissions permissions := by
  unfold resolve at h
  split at h
  · next hpermissions =>
    cases h
    refine ⟨none, by rw [← hpermissions], ?_⟩
    rw [hpermissions]
    exact .none
  · next authored hpermissions =>
    obtain ⟨groups, hgroups, rfl⟩ := exists_of_map_eq_ok h
    refine ⟨some groups, rfl, ?_⟩
    rw [hpermissions]
    exact .some hgroups

/-- Resolution leaves everything but the permissions of a field alone. -/
theorem FieldDeclaration.eq_of_resolve {field resolved : FieldDeclaration}
    {registry : Registry} (h : field.resolve registry = .ok resolved) :
    resolved = { field with permissions := resolved.permissions } := by
  obtain ⟨permissions, rfl, -⟩ := resolve_eq_ok h
  rfl

theorem FieldDeclaration.systemName_of_resolve {field resolved : FieldDeclaration}
    {registry : Registry} (h : field.resolve registry = .ok resolved) :
    resolved.systemName = field.systemName := by
  rw [eq_of_resolve h]

/-- Fields with the same declarations after their groups are resolved. -/
def ResolvedFields (registry : Registry) : List FieldDeclaration → List FieldDeclaration → Prop :=
  List.Forall₂ fun field resolved => field.resolve registry = .ok resolved

namespace ResolvedFields

variable {registry : Registry} {fields resolved : List FieldDeclaration}

theorem systemNames_eq (h : ResolvedFields registry fields resolved) :
    resolved.map FieldDeclaration.systemName = fields.map FieldDeclaration.systemName := by
  induction h with
  | nil => rfl
  | cons hfield hrest ih =>
      rw [List.map_cons, List.map_cons, ih, FieldDeclaration.systemName_of_resolve hfield]

theorem of_resolve {data resolved : DataSection} (h : data.resolve registry = .ok resolved) :
    ResolvedFields registry data.fields resolved.fields :=
  forall₂_of_mapM (DataSection.resolve_eq_ok h).1

theorem exists_of_mem (h : ResolvedFields registry fields resolved) {field : FieldDeclaration}
    (hmem : field ∈ resolved) : ∃ declared ∈ fields, declared.resolve registry = .ok field :=
  exists_of_forall₂_right h hmem

theorem exists_resolved_of_mem (h : ResolvedFields registry fields resolved)
    {field : FieldDeclaration} (hmem : field ∈ fields) :
    ∃ result ∈ resolved, field.resolve registry = .ok result :=
  exists_of_forall₂_right h.flip hmem

theorem mem_zip_iff (h : ResolvedFields registry fields resolved) {given : List String} {id : String}
    {field : FieldDeclaration} :
    (id, field) ∈ given.zip resolved ↔
      ∃ declared, (id, declared) ∈ given.zip fields ∧ declared.resolve registry = .ok field := by
  induction h generalizing given with
  | nil => simp
  | cons hfield hrest ih =>
      cases given with
      | nil => simp
      | cons first given =>
          simp only [List.zip_cons_cons, List.mem_cons, ih, Prod.mk.injEq]
          constructor
          · rintro (⟨rfl, rfl⟩ | ⟨declared, hmem, hresolve⟩)
            · exact ⟨_, .inl ⟨rfl, rfl⟩, hfield⟩
            · exact ⟨declared, .inr hmem, hresolve⟩
          · rintro ⟨declared, ⟨rfl, rfl⟩ | hmem, hresolve⟩
            · exact .inl ⟨rfl, Except.ok.inj (hresolve.symm.trans hfield)⟩
            · exact .inr ⟨declared, hmem, hresolve⟩

end ResolvedFields

/-! ## Documents and lookups of types -/

theorem find?_compiledDocuments {types : List StructuredType}
    (hnodup : (types.map StructuredType.owner).Nodup) {owner : TypeRef} {doc : CompiledDocument} :
    (compiledDocuments types).find? owner = some doc ↔
      ∃ type ∈ types, type.owner = owner ∧ type.document = doc := by
  have hkeys : ((types.map fun type => (type.owner, type.document)).map Prod.fst).Nodup := by
    simpa [Function.comp_def] using hnodup
  rw [compiledDocuments, SortedMap.find?_ofList_of_nodup hkeys, List.mem_map]
  simp only [Prod.mk.injEq]

/-- Publishing type by type inserts the lookups that there are. -/
theorem lookups_foldl_publish {publish : SymbolTable → StructuredType → SymbolTable}
    (hnone : ∀ symbols type, type.lookup = none → publish symbols type = symbols)
    (hsome : ∀ symbols type lookup, type.lookup = some lookup →
      publish symbols type = symbols.publish type.owner lookup)
    (types : List StructuredType) (symbols : SymbolTable) :
    (types.foldl publish symbols).lookups =
      (types.filterMap fun type => type.lookup.map fun lookup => (type.owner, lookup)).foldl
        (fun map entry => map.insert entry.1 entry.2) symbols.lookups := by
  induction types generalizing symbols with
  | nil => rfl
  | cons type types ih =>
      rw [List.foldl_cons, ih]
      cases hlookup : type.lookup with
      | none =>
          rw [List.filterMap_cons_none (by rw [hlookup]; rfl), hnone symbols type hlookup]
      | some lookup =>
          rw [List.filterMap_cons_some (by rw [hlookup]; rfl), List.foldl_cons,
            hsome symbols type lookup hlookup]
          rfl

theorem publishedSymbols_eq (types : List StructuredType) :
    (publishedSymbols types).lookups =
      .ofList (types.filterMap fun type => type.lookup.map fun lookup => (type.owner, lookup)) := by
  refine lookups_foldl_publish (fun symbols type h => ?_) (fun symbols type lookup h => ?_) types _
  · rw [h]
  · rw [h]

theorem lookup?_publishedSymbols {types : List StructuredType}
    (hnodup : (types.map StructuredType.owner).Nodup) {owner : TypeRef} {lookup : FieldLookup} :
    (publishedSymbols types).lookup? owner = some lookup ↔
      ∃ type ∈ types, type.owner = owner ∧ type.lookup = some lookup := by
  have hkeys : ((types.filterMap fun type =>
      type.lookup.map fun lookup => (type.owner, lookup)).map Prod.fst).Nodup := by
    rw [List.Nodup, List.pairwise_map, List.pairwise_filterMap]
    rw [List.Nodup, List.pairwise_map] at hnodup
    apply hnodup.imp
    intro type other hne entry hentry entry' hentry'
    rcases Option.map_eq_some_iff.1 hentry with ⟨lookup, -, rfl⟩
    rcases Option.map_eq_some_iff.1 hentry' with ⟨lookup', -, rfl⟩
    exact hne
  rw [SymbolTable.lookup?, publishedSymbols_eq, SortedMap.find?_ofList_of_nodup hkeys,
    List.mem_filterMap]
  simp only [Option.map_eq_some_iff, Prod.mk.injEq]
  constructor
  · intro hfound
    rcases hfound with ⟨type, hmem, found, hfound, rfl, rfl⟩
    exact ⟨type, hmem, rfl, hfound⟩
  · intro hfound
    rcases hfound with ⟨type, hmem, rfl, hfound⟩
    exact ⟨type, hmem, lookup, hfound, rfl, rfl⟩

theorem lookup?_publishedSymbols_of_mem {types : List StructuredType}
    (hnodup : (types.map StructuredType.owner).Nodup) {type : StructuredType} (h : type ∈ types) :
    (publishedSymbols types).lookup? type.owner = type.lookup := by
  apply Option.ext
  intro lookup
  rw [lookup?_publishedSymbols hnodup]
  constructor
  · intro hfound
    rcases hfound with ⟨other, hother, howner, hlookup⟩
    rwa [List.inj_on_of_nodup_map hnodup hother h howner] at hlookup
  · intro hlookup
    exact ⟨type, h, rfl, hlookup⟩

/-! ## A type in a report -/

variable {σ : Type} {ids : IdAllocator σ} {registry : Registry} {documents : AuthoredTypes}
  {state state' : σ} {report : Report} {owner : TypeRef} {doc : TypeDocument}

theorem resolveType_of_mem {docs : List (TypeRef × TypeDocument)} {types : List ResolvedType}
    (h : resolveTypes registry docs = .ok types) (hdoc : (owner, doc) ∈ docs) :
    ∃ type ∈ types, type.owner = owner ∧ resolveType registry owner doc = .ok type := by
  obtain ⟨type, hmem, htype⟩ := exists_of_forall₂_right (forall₂_of_resolveTypes h).flip hdoc
  exact ⟨type, hmem, (resolveType_eq_ok htype).1, htype⟩

theorem ResolvedType.owner_structured (type : ResolvedType) (registry : Registry)
    (given : List String) : (type.structured registry given).owner = type.owner := by
  unfold structured
  cases type.data <;> rfl

theorem ResolvedType.authored_structured (type : ResolvedType) (registry : Registry)
    (given : List String) : (type.structured registry given).authored = type.authored := by
  unfold structured
  cases type.data <;> rfl

variable (ids state) in
theorem owners_structuredTypes {types : List ResolvedType}
    (h : resolveTypes registry documents.toList = .ok types) :
    (structuredTypes ids registry documents state types).map StructuredType.owner =
      documents.keys := by
  have htypes := congrArg (List.map Prod.fst) (owners_of_resolveTypes h)
  rw [List.map_map] at htypes
  rw [structuredTypes, List.map_map, SortedMap.keys, ← htypes]
  exact List.map_congr_left fun type _ => ResolvedType.owner_structured type registry _

/-- The data section of a compiled document, made of the ids that its fields were given. -/
def DataSection.compiled (data : DataSection) (given : List String) : CompiledData where
  fields := .ofList (given.zip data.fields)
  permissions := data.permissions

/-- The lookup that is published for the fields of a data section. -/
def DataSection.lookup (data : DataSection) (given : List String) : FieldLookup :=
  .ofList ((data.fields.map FieldDeclaration.systemName).zip given)

theorem ResolvedType.structured_of_none {type : ResolvedType} (h : type.data = none)
    (given : List String) :
    (type.structured registry given).document.data = none ∧
      (type.structured registry given).lookup = none := by
  simp [structured, h]

theorem ResolvedType.structured_of_some {type : ResolvedType} {data : DataSection}
    (h : type.data = some data) (given : List String) :
    (type.structured registry given).document.data = some (data.compiled given) ∧
      (type.structured registry given).lookup = some (data.lookup given) := by
  have hdeclared : (given.zip data.fields).map (fun entry => (entry.2.systemName, entry.1)) =
      (data.fields.map FieldDeclaration.systemName).zip given := by
    rw [List.zip_map_left, List.zip, List.zip, List.map_zipWith, List.zipWith_comm,
      List.map_zipWith]
    rfl
  simp [structured, h, DataSection.compiled, DataSection.lookup, hdeclared]

/-- The documents of a report belong to the authored types and keep their outlines. -/
theorem documents_of_compile (h : compile ids registry documents state = (.ok report, state')) :
    ∃ types final, resolveTypes registry documents.toList = .ok types ∧
      report.symbols = publishedSymbols (structuredTypes ids registry documents state types) ∧
      report.documents = compiledDocuments final ∧
      final.map StructuredType.owner = documents.keys ∧
      final.map StructuredType.outline =
        (structuredTypes ids registry documents state types).map StructuredType.outline := by
  obtain ⟨types, htypes, hfinish, -⟩ := of_compile_ok h
  obtain ⟨hsymbols, final, hdocuments, houtline⟩ := outline_finish hfinish
  refine ⟨types, final, htypes, hsymbols, hdocuments, ?_, houtline⟩
  rw [← owners_structuredTypes ids state htypes]
  simpa [Function.comp_def, StructuredType.outline] using congrArg (List.map Prod.fst) houtline

/-- Every type has a document and, if it has a data section, a lookup with its fields. -/
theorem report_of_compile (h : compile ids registry documents state = (.ok report, state'))
    (hdoc : documents.find? owner = some doc) :
    ∃ compiled, report.documents.find? owner = some compiled ∧
      match doc.data with
      | none => compiled.data = none ∧ report.symbols.lookup? owner = none
      | some data => ∃ resolved, data.resolve registry = .ok resolved ∧
          compiled.data = some (resolved.compiled (ids.given documents state owner)) ∧
          report.symbols.lookup? owner =
            some (resolved.lookup (ids.given documents state owner)) := by
  obtain ⟨types, final, htypes, hsymbols, hdocuments, hfinal, houtline⟩ := documents_of_compile h
  have howners := owners_structuredTypes ids state htypes
  obtain ⟨type, hmem, rfl, htype⟩ := resolveType_of_mem htypes (SortedMap.find?_eq_some_iff.1 hdoc)
  let given := ids.given documents state type.owner
  have hstructured : type.structured registry given ∈
      structuredTypes ids registry documents state types := List.mem_map_of_mem hmem
  have hkept : (type.structured registry given).outline ∈ final.map StructuredType.outline := by
    rw [houtline]
    exact List.mem_map_of_mem hstructured
  rcases List.mem_map.1 hkept with ⟨last, hlast, hsame⟩
  have hfound : report.documents.find? type.owner = some last.document := by
    rw [hdocuments, find?_compiledDocuments (hfinal ▸ documents.keys_nodup)]
    exact ⟨last, hlast, (congrArg Prod.fst hsame).trans (ResolvedType.owner_structured ..), rfl⟩
  have hdata : last.document.data = (type.structured registry given).document.data :=
    congrArg (fun outline => outline.2.2) hsame
  have hlookup : report.symbols.lookup? type.owner = (type.structured registry given).lookup := by
    rw [hsymbols, ← ResolvedType.owner_structured type registry given]
    exact lookup?_publishedSymbols_of_mem (howners ▸ documents.keys_nodup) hstructured
  refine ⟨last.document, hfound, ?_⟩
  rw [hdata, hlookup]
  obtain ⟨-, -, hresolved⟩ := resolveType_eq_ok htype
  generalize hsection : type.data = resolved at hresolved
  generalize doc.data = authored at hresolved
  cases hresolved with
  | none => exact ResolvedType.structured_of_none hsection given
  | some hresolved => exact ⟨_, hresolved, ResolvedType.structured_of_some hsection given⟩

/-- Only authored types have a document. -/
theorem find?_of_find?_report (h : compile ids registry documents state = (.ok report, state'))
    {compiled : CompiledDocument} (hcompiled : report.documents.find? owner = some compiled) :
    ∃ doc, documents.find? owner = some doc := by
  obtain ⟨-, final, -, -, hdocuments, hfinal, -⟩ := documents_of_compile h
  rw [hdocuments, find?_compiledDocuments (hfinal ▸ documents.keys_nodup)] at hcompiled
  rcases hcompiled with ⟨type, hmem, rfl, -⟩
  have howner : type.owner ∈ documents.keys := hfinal ▸ List.mem_map_of_mem hmem
  exact Option.isSome_iff_exists.1 (SortedMap.find?_isSome_iff.2 howner)

/-- A document has the declared fields of its type, each labelled with the id that it was given. -/
theorem data_of_find?_report (h : compile ids registry documents state = (.ok report, state'))
    {compiled : CompiledDocument} (hcompiled : report.documents.find? owner = some compiled) :
    ∃ doc, documents.find? owner = some doc ∧
      match doc.data with
      | none => compiled.data = none
      | some data => ∃ resolved, data.resolve registry = .ok resolved ∧
          compiled.data = some (resolved.compiled (ids.given documents state owner)) := by
  obtain ⟨doc, hdoc⟩ := find?_of_find?_report h hcompiled
  obtain ⟨compiled', hfound, hdata⟩ := report_of_compile h hdoc
  obtain rfl : compiled = compiled' := Option.some.inj (hcompiled.symm.trans hfound)
  refine ⟨doc, hdoc, ?_⟩
  cases hsection : doc.data with
  | none =>
      rw [hsection] at hdata
      exact hdata.1
  | some data =>
      rw [hsection] at hdata
      rcases hdata with ⟨resolved, hresolved, hcompiled, -⟩
      exact ⟨resolved, hresolved, hcompiled⟩

end SchemaLink
