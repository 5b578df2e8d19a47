import SchemaLink.Proofs.Compilation.Recompilation
import SchemaLink.Proofs.Linker.FieldIds

/-! # Published lookups

A lookup binds every declared name to the id of its last declaration, and that id has
the declaration in the output. So whatever id a path ends in stands for the field that
the path names, on a type that it reaches. -/

namespace SchemaLink

/-! ## Bindings of a lookup -/

section Lookup

variable {data : DataSection} {given : List String}

theorem DataSection.find?_lookup (data : DataSection) (given : List String) (name : String) :
    (data.lookup given).find? name =
      (idsOfName name data.fields given).getLast?.or (if name = "id" then some "id" else none) := by
  have hinsert : ∀ (declared : List (String × String)) (lookup : FieldLookup),
      (declared.foldl (fun lookup field => lookup.insert field.1 field.2) lookup).ids =
        declared.foldl (fun map field => map.insert field.1 field.2) lookup.ids := by
    intro declared
    induction declared with
    | nil => exact fun _ => rfl
    | cons field declared ih => exact fun lookup => ih (lookup.insert field.1 field.2)
  have hinitial : FieldLookup.initial.ids.find? name = if name = "id" then some "id" else none := by
    by_cases h : name = "id"
    · rw [h]
      rfl
    · rw [if_neg h, FieldLookup.initial, SortedMap.find?_insert_of_ne h]
      rfl
  have hnamed : idsOfName name data.fields given =
      (((data.fields.map FieldDeclaration.systemName).zip given).filter fun entry =>
        compare entry.1 name == .eq).map Prod.snd := by
    rw [idsOfName, List.zip_map_left, List.filter_map, List.map_map]
    apply congrArg
    apply List.filter_congr
    intro entry _
    by_cases hentry : entry.1.systemName = name
    · simp [hentry]
    · have hne : compare entry.1.systemName name ≠ .eq :=
        fun hcompare => hentry (Std.LawfulEqCmp.eq_of_compare hcompare)
      simp [hentry, hne]
  rw [lookup, FieldLookup.find?, FieldLookup.ofList, hinsert, SortedMap.find?_foldl_insert,
    hinitial, hnamed, List.getLast?_map]

theorem mem_names_iff (hlength : given.length = data.fields.length) (name : String) :
    name ∈ data.fields.map FieldDeclaration.systemName ↔ idsOfName name data.fields given ≠ [] := by
  rw [← List.length_pos_iff, length_idsOfName hlength, List.countP_pos_iff, List.mem_map]
  simp only [decide_eq_true_eq]

/-- The id of the last declaration of a name is the last of its ids. -/
theorem getLast?_idsOfName {before after : List FieldDeclaration} {field : FieldDeclaration}
    {earlier later : List String} {id : String} (hearlier : earlier.length = before.length)
    (hlast : field.systemName ∉ after.map FieldDeclaration.systemName) :
    (idsOfName field.systemName (before ++ field :: after) (earlier ++ id :: later)).getLast? =
      some id := by
  have hafter : (after.zip later).filter (fun entry => entry.1.systemName = field.systemName) =
      [] := by
    apply List.filter_eq_nil_iff.2
    intro entry hentry
    have hmem := (List.of_mem_zip hentry).1
    simpa using fun heq : entry.1.systemName = field.systemName =>
      hlast (heq ▸ List.mem_map_of_mem hmem)
  rw [idsOfName, List.zip_append hearlier.symm, List.zip_cons_cons, List.filter_append,
    List.filter_cons_of_pos (by simp), hafter]
  simp

end Lookup

theorem ResolvedFields.split {registry : Registry} {before after resolved : List FieldDeclaration}
    {field : FieldDeclaration} (h : ResolvedFields registry (before ++ field :: after) resolved) :
    ∃ first found rest, resolved = first ++ found :: rest ∧ first.length = before.length ∧
      field.resolve registry = .ok found := by
  induction before generalizing resolved with
  | nil =>
      cases h with
      | cons hfield hrest => exact ⟨[], _, _, rfl, rfl, hfield⟩
  | cons head before ih =>
      cases h with
      | cons hhead hrest =>
          obtain ⟨first, found, rest, rfl, hlength, hfield⟩ := ih hrest
          exact ⟨_ :: first, found, rest, rfl, by simp [hlength], hfield⟩

/-! ## Lookups in a report -/

/-- The field that the document of a type has under an id. -/
def Report.field? (report : Report) (type : TypeRef) (id : String) : Option FieldDeclaration :=
  (report.documents.find? type).bind fun compiled =>
    compiled.data.bind fun data => data.fields.find? id

/-- The lookup that a report publishes for a type names the declared fields of the type, which
were given ids in order. -/
structure Publishes (registry : Registry) (report : Report) (type : TypeRef) (data : DataSection)
    (given : List String) : Prop where
  /-- The type has a lookup. -/
  published : (report.symbols.lookup? type).isSome
  bound_iff : ∀ name, (report.symbols.fieldId? type name).isSome ↔
    name ∈ data.fields.map FieldDeclaration.systemName ∨ name = "id"
  /-- The last declaration of a name counts, and the document has it under its id. -/
  last_declaration : ∀ before field after, data.fields = before ++ field :: after →
    field.systemName ∉ after.map FieldDeclaration.systemName →
    ∃ id resolved, given[before.length]? = some id ∧
      report.symbols.fieldId? type field.systemName = some id ∧
      field.resolve registry = .ok resolved ∧ report.field? type id = some resolved
  /-- A name that is not declared may still be the synthetic one. -/
  synthetic : "id" ∉ data.fields.map FieldDeclaration.systemName →
    report.symbols.fieldId? type "id" = some "id"

section Reports

variable {σ : Type} {ids : IdAllocator σ} {registry : Registry} {documents : AuthoredTypes}
  {state state' : σ} {report : Report} {owner : TypeRef} {doc : TypeDocument} {data : DataSection}

/-- A name is bound to the id of its last declaration, and the synthetic one to itself if it is not
declared. -/
theorem fieldId?_of_compile (h : compile ids registry documents state = (.ok report, state'))
    (hdoc : documents.find? owner = some doc) (hdata : doc.data = some data) (name : String) :
    report.symbols.fieldId? owner name =
      (idsOfName name data.fields (ids.given documents state owner)).getLast?.or
        (if name = "id" then some "id" else none) := by
  obtain ⟨compiled, -, hcompiled⟩ := report_of_compile h hdoc
  rw [hdata] at hcompiled
  rcases hcompiled with ⟨resolved, hresolved, -, hlookup⟩
  have hnames := (ResolvedFields.of_resolve hresolved).systemNames_eq
  rw [SymbolTable.fieldId?, hlookup, Option.bind_some, DataSection.find?_lookup,
    idsOfName_eq_of_systemNames name hnames]

/-- While the ids of a type differ, its lookup and its document agree. -/
theorem publishes_of_compile (h : compile ids registry documents state = (.ok report, state'))
    (hdoc : documents.find? owner = some doc) (hdata : doc.data = some data)
    (hnodup : (ids.given documents state owner).Nodup) :
    Publishes registry report owner data (ids.given documents state owner) := by
  obtain ⟨compiled, hfound, hcompiled⟩ := report_of_compile h hdoc
  rw [hdata] at hcompiled
  rcases hcompiled with ⟨resolved, hresolved, hfields, hlookup⟩
  have hresolvedFields := ResolvedFields.of_resolve hresolved
  have hnames := hresolvedFields.systemNames_eq
  have hlength : (ids.given documents state owner).length = data.fields.length := by
    rw [ids.length_given state hdoc]
    simp [TypeDocument.declared, hdata]
  have hsame : resolved.fields.length = data.fields.length := by
    simpa using congrArg List.length hnames
  have hid := fieldId?_of_compile h hdoc hdata
  refine ⟨by rw [hlookup]; rfl, fun name => ?_, fun before field after hsplit hlast => ?_, ?_⟩
  · rw [hid, mem_names_iff hlength, Option.isSome_or, Bool.or_eq_true, List.getLast?_isSome]
    by_cases hname : name = "id" <;> simp [hname]
  · obtain ⟨first, found, rest, hrest, hfirst, hfield⟩ := (hsplit ▸ hresolvedFields).split
    have hbefore : before.length < (ids.given documents state owner).length := by
      rw [hlength, hsplit]
      simp
    let id := (ids.given documents state owner)[before.length]
    have hgiven : ids.given documents state owner =
        (ids.given documents state owner).take before.length ++
          id :: (ids.given documents state owner).drop (before.length + 1) := by
      rw [← List.drop_eq_getElem_cons hbefore, List.take_append_drop]
    have hearlier : ((ids.given documents state owner).take before.length).length =
        before.length := by
      rw [List.length_take, Nat.min_eq_left (Nat.le_of_lt hbefore)]
    refine ⟨id, found, List.getElem?_eq_getElem hbefore, ?_, hfield, ?_⟩
    · rw [hid, hsplit, hgiven, getLast?_idsOfName hearlier hlast]
      rfl
    · have hentry : (id, found) ∈ (ids.given documents state owner).zip resolved.fields := by
        rw [hgiven, hrest, List.zip_append (hearlier.trans hfirst.symm)]
        simp
      rw [Report.field?, hfound, Option.bind_some, hfields, Option.bind_some]
      exact (DataSection.find?_compiled hnodup (hlength.trans hsame.symm)).2 hentry
  · intro habsent
    rw [mem_names_iff hlength, not_not] at habsent
    rw [hid, habsent]
    rfl

/-- Only types with a data section have a lookup. -/
theorem find?_of_lookup?_report (h : compile ids registry documents state = (.ok report, state'))
    {lookup : FieldLookup} (hlookup : report.symbols.lookup? owner = some lookup) :
    ∃ doc data, documents.find? owner = some doc ∧ doc.data = some data := by
  have hdoc : ∃ doc, documents.find? owner = some doc := by
    obtain ⟨types, -, htypes, hsymbols, -⟩ := documents_of_compile h
    have howners := owners_structuredTypes ids state htypes
    rw [hsymbols, lookup?_publishedSymbols (howners ▸ documents.keys_nodup)] at hlookup
    rcases hlookup with ⟨type, hmem, rfl, -⟩
    have howner : type.owner ∈ documents.keys := howners ▸ List.mem_map_of_mem hmem
    exact Option.isSome_iff_exists.1 (SortedMap.find?_isSome_iff.2 howner)
  rcases hdoc with ⟨doc, hdoc⟩
  obtain ⟨compiled, -, hcompiled⟩ := report_of_compile h hdoc
  cases hdata : doc.data with
  | some data => exact ⟨doc, data, hdoc, hdata⟩
  | none =>
      rw [hdata] at hcompiled
      rw [hcompiled.2] at hlookup
      cases hlookup

end Reports

/-! ## Ids of paths -/

section Stable

variable {μ : Type} {mint : μ → String × μ} {minter : μ} {registry : Registry}
  {documents : AuthoredTypes} {outputs : List (TypeRef × String)} {report : Report}
  {state : StableIds μ}

/-- A lookup binds the declared names of its type, each to the id of the last declaration, and a
path that names a field ends in the id that the name is bound to on a type that it reaches. -/
theorem ids_stand_for_fields (houtputs : (outputs.map Prod.fst).Nodup)
    (hfresh : Fresh mint (History.ofOutputs outputs).Holds minter)
    (hcompile : compile (StableIds.allocate mint) registry documents
      (.start (History.ofOutputs outputs) minter) = (.ok report, state)) :
    (∀ type doc data, documents.find? type = some doc → doc.data = some data →
      Publishes registry report type data ((StableIds.allocate mint).given documents
        (.start (History.ofOutputs outputs) minter) type)) ∧
    ∀ (registry' : Registry) (path : Path) (scope : Scope) (name variant : String),
      path.terminal.fieldName? = some name →
      variant ∈ Linker.variants ⟨registry', report.symbols⟩ path scope →
      ∃ type doc data front id, path.Reaches registry' scope type ∧
        documents.find? type = some doc ∧ doc.data = some data ∧
        report.symbols.fieldId? type name = some id ∧ variant = front ++ "$" ++ id := by
  constructor
  · intro type doc data hdoc hdata
    have hnodup := nodup_given (History.exclusive_ofOutputs houtputs) hfresh documents type
    exact publishes_of_compile hcompile hdoc hdata hnodup
  · intro registry' path scope name variant hname hmem
    obtain ⟨type, front, id, htype, hid, hvariant⟩ := Linker.exists_id_of_mem_variants hname hmem
    rcases Option.bind_eq_some_iff.1 hid with ⟨lookup, hlookup, -⟩
    obtain ⟨doc, data, hdoc, hdata⟩ := find?_of_lookup?_report hcompile hlookup
    exact ⟨type, doc, data, front, id, htype, hdoc, hdata, hid, hvariant⟩

/-- Of two titles the second counts, for its type as well as in a path. -/
theorem id_of_second_title : ∃ report state,
    compile (StableIds.allocate lengthening) {} twiceTitled (.start titleOnRecord 2) =
        (.ok report, state) ∧
      report.symbols.fieldId? (.entity "book") "title" = some "nn" ∧
      report.field? (.entity "book") "nn" =
        some { systemName := "title", valueType := some "Text" } ∧
      ∀ variant ∈ Linker.variants ⟨{}, report.symbols⟩ ⟨[], .field "title"⟩
        ⟨[.entity "book"], []⟩, ∃ front, variant = front ++ "$" ++ "nn" := by
  rcases exists_report_twiceTitled with ⟨report, state, hreport⟩
  obtain ⟨hlookups, hpaths⟩ := ids_stand_for_fields (by simp) fresh_titleOnRecord hreport
  have hdata : secondTitle.data = some ⟨secondTitle.declared, {}⟩ := rfl
  have hpublishes := hlookups (.entity "book") secondTitle _ rfl hdata
  obtain ⟨id, resolved, hid, hbound, hresolved, hfield⟩ := hpublishes.last_declaration
    [{ systemName := "title", valueType := some "String" }]
    { systemName := "title", valueType := some "Text" } [] rfl (by simp)
  have hgiven : (StableIds.allocate lengthening).given twiceTitled (.start titleOnRecord 2)
      (.entity "book") = ["z", "nn"] := by
    rw [titleOnRecord_eq]
    rfl
  obtain rfl : "nn" = id := Option.some.inj ((congrArg (·[1]?) hgiven).symm.trans hid)
  cases hresolved
  refine ⟨report, state, hreport, hbound, hfield, ?_⟩
  intro variant hvariant
  obtain ⟨type, -, -, front, id, htype, -, -, hid, rfl⟩ :=
    hpaths {} _ _ "title" variant rfl hvariant
  obtain rfl : type = .entity "book" := List.mem_singleton.1 htype
  rw [Option.some.inj (hid.symm.trans hbound)]
  exact ⟨front, rfl⟩

end Stable

end SchemaLink
