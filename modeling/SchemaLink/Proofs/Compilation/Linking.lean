import SchemaLink.Proofs.Compilation.Fields
import SchemaLink.Proofs.Compilation.SectionTemplates

/-! # Templates in a report

With the relation registry at hand, every template of every type is filled in against
the symbols that the whole run has published, wherever in the order of types it stands.
The advisories tell exactly of those that vanish. -/

namespace SchemaLink

/-! ## Sections of a type -/

/-- The templates in the search-index section of a document. -/
def searchTemplates (search : Option SearchSection) : List Template :=
  search.toList.flatMap SearchSection.templates

/-- A search-index section has the authored templates filled in and its groups resolved. -/
def SearchSection.LinksTo (registry : Registry) (fill : Template → String) :
    Option SearchSection → Option SearchSection → Prop
  | none, linked => linked = none
  | some search, linked =>
    ∃ resolved, search.resolve registry = .ok resolved ∧ linked = some (resolved.filled fill)

/-- The sections of a compiled document that have templates are those of the authored one, with
every template filled in. -/
structure LinkedSections (linker : Linker) (owner : TypeRef) (doc : TypeDocument)
    (compiled : CompiledDocument) : Prop where
  display : compiled.display =
    doc.display.map (DisplaySection.filled (linker.fill owner) linker.registry.resolveNames)
  edit : compiled.edit = doc.edit.map (EditSection.filled (linker.fill owner))
  search : SearchSection.LinksTo linker.registry (linker.fill owner) doc.search compiled.search
  /-- Place by place the texts are what the authored ones are filled in to. -/
  texts : (shownTemplates compiled.display compiled.edit ++
      searchTemplates compiled.search).map Template.entry =
    (shownTemplates doc.display doc.edit ++ searchTemplates doc.search).map
      (Template.filledEntry (linker.fill owner))

namespace SearchSection

variable {registry : Registry} {fill : Template → String}

/-- A search-index section that resolves is the authored one, with its groups resolved if it has
any. -/
theorem resolve_eq_ok {search resolved : SearchSection}
    (h : search.resolve registry = .ok resolved) :
    ∃ permissions, resolved = { search with permissions := permissions } ∧
      Option.Rel (fun authored groups => registry.resolvePermissions authored = .ok groups)
        search.permissions permissions := by
  unfold resolve at h
  split at h
  · next hpermissions =>
    cases h
    refine ⟨none, by rw [← hpermissions], ?_⟩
    rw [hpermissions]
    exact .none
  · next authored hpermissions =>
    obtain ⟨groups, hgroups, rfl⟩ := exists_of_map_eq_ok h
    refine ⟨some groups, rfl, ?_⟩
    rw [hpermissions]
    exact .some hgroups

theorem templates_of_resolve {search resolved : SearchSection}
    (h : search.resolve registry = .ok resolved) : resolved.templates = search.templates := by
  obtain ⟨permissions, rfl, -⟩ := resolve_eq_ok h
  rfl

/-- Resolving groups and filling in templates do not get in each other's way. -/
theorem resolve_filled (search : SearchSection) :
    (search.filled fill).resolve registry =
      (search.resolve registry).map fun resolved => resolved.filled fill := by
  have hpermissions : (search.filled fill).permissions = search.permissions := rfl
  unfold resolve
  rw [hpermissions]
  cases search.permissions with
  | none => rfl
  | some permissions =>
      dsimp only
      cases registry.resolvePermissions permissions <;> rfl

theorem LinksTo.entries {search linked : Option SearchSection}
    (h : LinksTo registry fill search linked) :
    (searchTemplates linked).map Template.entry =
      (searchTemplates search).map (Template.filledEntry fill) := by
  cases search with
  | none =>
      obtain rfl : linked = none := h
      rfl
  | some search =>
      rcases h with ⟨resolved, hresolved, rfl⟩
      simp [searchTemplates, entries_filled, templates_of_resolve hresolved]

end SearchSection

section Stages

variable {linker : Linker} {type : StructuredType}

/-- The advisories on the templates of a type that vanish. -/
def Linker.vanishing (linker : Linker) (owner : TypeRef) (templates : List Template) :
    List Advisory :=
  templates.filterMap (linker.vanishing? owner)

theorem present_eq (linker : Linker) (type : StructuredType) :
    type.present linker =
      ⟨{ type with document := { type.document with
          display := type.authored.display.map (DisplaySection.filled (linker.fill type.owner)
            linker.registry.resolveNames)
          edit := type.authored.edit.map (EditSection.filled (linker.fill type.owner)) } },
        linker.vanishing type.owner
          (shownTemplates type.authored.display type.authored.edit)⟩ := by
  unfold StructuredType.present
  rw [SectionLinker.presentation_eq]
  exact SectionLinker.made_bind_pure _ _ _

/-- The search index of a type is linked after everything else. -/
theorem of_index {indexed : Reported StructuredType} (h : type.index linker = .ok indexed) :
    (∃ search searchDisplay, indexed.value =
        { type with document := { type.document with
          search := search, searchDisplay := searchDisplay } } ∧
      SearchSection.LinksTo linker.registry (linker.fill type.owner) type.authored.search
        search) ∧
    indexed.advisories =
      linker.vanishing type.owner (searchTemplates type.authored.search) := by
  unfold StructuredType.index SectionLinker.searchIndex at h
  cases hsearch : type.authored.search with
  | none =>
      rw [hsearch] at h
      cases h
      exact ⟨⟨none, _, rfl, rfl⟩, rfl⟩
  | some search =>
      rw [hsearch] at h
      dsimp only at h
      rw [SectionLinker.searchFields_eq, SectionLinker.made, SearchSection.resolve_filled] at h
      cases hresolved : search.resolve linker.registry with
      | error error => rw [hresolved] at h; cases h
      | ok resolved =>
          rw [hresolved] at h
          cases h
          refine ⟨⟨_, _, rfl, resolved, hresolved, rfl⟩, ?_⟩
          simp only [Reported.bind_advisories, Reported.pure_advisories, List.append_nil,
            searchTemplates, Option.toList_some, List.flatMap_singleton]
          rfl

/-- A type as it is after both stages. -/
structure Linked (linker : Linker) (type final : StructuredType) : Prop where
  owner : final.owner = type.owner
  sections : LinkedSections linker type.owner type.authored final.document

theorem linked_of_index {indexed : Reported StructuredType}
    (h : (type.present linker).value.index linker = .ok indexed) :
    Linked linker type indexed.value ∧
      indexed.advisories =
        linker.vanishing type.owner (searchTemplates type.authored.search) := by
  rw [present_eq] at h
  obtain ⟨⟨search, searchDisplay, hvalue, hsearch⟩, hadvisories⟩ := of_index h
  rw [hvalue]
  refine ⟨⟨rfl, rfl, rfl, hsearch, ?_⟩, hadvisories⟩
  rw [List.map_append, List.map_append, entries_shownTemplates]
  exact congrArg _ hsearch.entries

theorem linked_of_indexTypes {types : List StructuredType}
    {indexed : Reported (List StructuredType)}
    (h : indexTypes linker (types.map fun type => (type.present linker).value) = .ok indexed) :
    List.Forall₂ (Linked linker) types indexed.value ∧
      indexed.advisories = types.flatMap fun type =>
        linker.vanishing type.owner (searchTemplates type.authored.search) := by
  induction types generalizing indexed with
  | nil => cases h; exact ⟨.nil, rfl⟩
  | cons type types ih =>
      rw [List.map_cons, indexTypes] at h
      split at h
      · cases h
      · next first hfirst =>
          split at h
          · cases h
          · next rest hrest =>
              cases h
              obtain ⟨hlinked, hadvisories⟩ := linked_of_index hfirst
              obtain ⟨hlinkedRest, hadvisoriesRest⟩ := ih hrest
              refine ⟨.cons hlinked hlinkedRest, ?_⟩
              simp only [Reported.bind_advisories, Reported.pure_advisories, List.append_nil,
                hadvisories, hadvisoriesRest, List.flatMap_cons]

theorem owners_of_linked {types final : List StructuredType}
    (h : List.Forall₂ (Linked linker) types final) :
    final.map StructuredType.owner = types.map StructuredType.owner := by
  induction h with
  | nil => rfl
  | cons hlinked hrest ih => rw [List.map_cons, List.map_cons, hlinked.owner, ih]

theorem exists_linked_of_mem {types final : List StructuredType}
    (h : List.Forall₂ (Linked linker) types final) (hmem : type ∈ types) :
    ∃ last ∈ final, Linked linker type last := by
  induction h with
  | nil => cases hmem
  | cons hlinked hrest ih =>
      rcases List.mem_cons.1 hmem with rfl | hmem
      · exact ⟨_, List.mem_cons_self, hlinked⟩
      · obtain ⟨last, hlast, hlinked⟩ := ih hmem
        exact ⟨last, List.mem_cons_of_mem _ hlast, hlinked⟩

end Stages

/-! ## Advisories of the first stage -/

theorem category_of_mem_checkEnds {registry : Registry} {owner : TypeRef} {doc : TypeDocument}
    {advisory : Advisory} (h : advisory ∈ checkEnds registry owner doc) :
    advisory.category = .domainMismatch := by
  unfold checkEnds at h
  split at h
  · cases h
  · split at h
    · rw [List.mem_singleton.1 h]
      rfl
    · rcases List.mem_append.1 h with hside | hside
      all_goals
        dsimp only at hside
        split at hside
        · cases hside
        · split at hside
          · cases hside
          · rw [List.mem_singleton.1 hside]
            rfl

theorem category_of_mem_structured {registry : Registry} {type : ResolvedType}
    {given : List String} {advisory : Advisory}
    (h : advisory ∈ (type.structured registry given).advisories) :
    advisory.category ≠ .emptyResolution := by
  unfold ResolvedType.structured at h
  cases hdata : type.data with
  | none =>
      rw [hdata] at h
      rw [category_of_mem_checkEnds h]
      nofun
  | some data =>
      rw [hdata] at h
      rcases List.mem_append.1 h with hends | hrepeated
      · rw [category_of_mem_checkEnds hends]
        nofun
      · rcases List.mem_map.1 hrepeated with ⟨name, -, rfl⟩
        nofun

/-- A template that vanishes is the only reason for its kind of advisory. -/
theorem category_of_mem_vanishing {linker : Linker} {owner : TypeRef} {templates : List Template}
    {advisory : Advisory} (h : advisory ∈ linker.vanishing owner templates) :
    advisory.category = .emptyResolution := by
  obtain ⟨template, -, hvanishing⟩ := List.mem_filterMap.1 h
  unfold Linker.vanishing? at hvanishing
  dsimp only at hvanishing
  split at hvanishing
  · cases hvanishing
    rfl
  · cases hvanishing

/-! ## The whole report -/

section Reports

variable {σ : Type} {ids : IdAllocator σ} {registry : Registry} {documents : AuthoredTypes}
  {state state' : σ} {report : Report}

theorem finish_linked {types : List StructuredType} (hrelations : registry.hasRelations = true)
    (h : finish registry types = .ok report) :
    let linker : Linker := ⟨registry, report.symbols⟩
    (∃ final, List.Forall₂ (Linked linker) types final ∧
      report.documents = compiledDocuments final) ∧
    report.advisories =
      registry.missing.map .missingRegistry ++ types.flatMap StructuredType.advisories ++
      (types.flatMap fun type => linker.vanishing type.owner
        (shownTemplates type.authored.display type.authored.edit)) ++
      types.flatMap fun type =>
        linker.vanishing type.owner (searchTemplates type.authored.search) := by
  unfold finish at h
  simp only [hrelations, if_true] at h
  split at h
  · cases h
  · next indexed hindexed =>
      cases h
      rw [Reported.mapM_value] at hindexed
      obtain ⟨hlinked, hadvisories⟩ := linked_of_indexTypes hindexed
      refine ⟨⟨indexed.value, hlinked, rfl⟩, ?_⟩
      simp only [hadvisories, Reported.mapM_advisories, present_eq]

theorem structuredTypes_authored {types : List ResolvedType}
    (h : resolveTypes registry documents.toList = .ok types) (ids : IdAllocator σ) (state : σ) :
    (structuredTypes ids registry documents state types).map (fun type =>
      (type.owner, type.authored)) = documents.toList := by
  rw [structuredTypes, List.map_map, ← owners_of_resolveTypes h]
  exact List.map_congr_left fun type _ =>
    Prod.ext (ResolvedType.owner_structured ..) (ResolvedType.authored_structured ..)

/-- Every template of every type is filled in against all symbols that the run has published, and
there is an advisory for every one that vanishes: first for what is shown of the types in order,
then for their search-index sections. -/
theorem compile_fills_templates (h : compile ids registry documents state = (.ok report, state'))
    (hrelations : registry.hasRelations = true) :
    let linker : Linker := ⟨registry, report.symbols⟩
    (∀ owner doc, documents.find? owner = some doc →
      ∃ compiled, report.documents.find? owner = some compiled ∧
        LinkedSections linker owner doc compiled) ∧
    report.advisories.filter (fun advisory => advisory.category = .emptyResolution) =
      (documents.toList.flatMap fun (owner, doc) =>
        linker.vanishing owner (shownTemplates doc.display doc.edit)) ++
      documents.toList.flatMap fun (owner, doc) =>
        linker.vanishing owner (searchTemplates doc.search) := by
  intro linker
  obtain ⟨types, htypes, hfinish, -⟩ := of_compile_ok h
  obtain ⟨⟨final, hfinal, hdocuments⟩, hadvisories⟩ := finish_linked hrelations hfinish
  have hauthored := structuredTypes_authored htypes ids state
  have howners : final.map StructuredType.owner = documents.keys :=
    (owners_of_linked hfinal).trans (owners_structuredTypes ids state htypes)
  constructor
  · intro owner doc hdoc
    rw [SortedMap.find?_eq_some_iff, ← hauthored] at hdoc
    rcases List.mem_map.1 hdoc with ⟨type, htype, heq⟩
    rcases Prod.mk.inj heq with ⟨rfl, rfl⟩
    obtain ⟨last, hlast, hlinked⟩ := exists_linked_of_mem hfinal htype
    refine ⟨last.document, ?_, hlinked.sections⟩
    rw [hdocuments, find?_compiledDocuments (howners ▸ documents.keys_nodup)]
    exact ⟨last, hlast, hlinked.owner, rfl⟩
  · have hfound : ∀ advisory ∈ registry.missing.map Advisory.missingRegistry ++
        (structuredTypes ids registry documents state types).flatMap StructuredType.advisories,
        advisory.category ≠ .emptyResolution := by
      intro advisory hmem
      rcases List.mem_append.1 hmem with hmissing | hstructured
      · rcases List.mem_map.1 hmissing with ⟨kind, -, rfl⟩
        nofun
      · rcases List.mem_flatMap.1 hstructured with ⟨type, htype, hmem⟩
        rcases List.mem_map.1 htype with ⟨resolved, -, rfl⟩
        exact category_of_mem_structured hmem
    have hvanishing : ∀ templatesOf : TypeDocument → List Template,
        ((structuredTypes ids registry documents state types).flatMap fun type =>
          linker.vanishing type.owner (templatesOf type.authored)).filter
            (fun advisory => advisory.category = .emptyResolution) =
          documents.toList.flatMap fun (owner, doc) =>
            linker.vanishing owner (templatesOf doc) := by
      intro templatesOf
      rw [← hauthored, List.flatMap_map]
      apply List.filter_eq_self.2
      intro advisory hmem
      rcases List.mem_flatMap.1 hmem with ⟨type, -, hmem⟩
      exact decide_eq_true (category_of_mem_vanishing hmem)
    rw [hadvisories, List.filter_append, List.filter_append,
      hvanishing fun doc => shownTemplates doc.display doc.edit,
      hvanishing fun doc => searchTemplates doc.search,
      List.filter_eq_nil_iff.2 fun advisory hmem => by simpa using hfound advisory hmem,
      List.nil_append]

end Reports

/-! ## An author of books -/

def libraryRegistry : Registry where
  relations := some (.ofList [("wrote", { id := "R1", domain := ["author"], range := ["book"] })])

/-- An author, whose templates lead to books. Neither has pages. -/
def authorOfBooks : TypeDocument where
  data := some { fields := [{ systemName := "name" }] }
  display := some { title := some "$name: $r_wrote->$title" }
  edit := some { layout := some [{ fields := some [{ field := "$pages" }] }] }
  search := some { fields := some [{
    valueType := "nested"
    base := some "$r_wrote"
    parts := some (.ofList [("title", "$title")])
    filter := some "$pages" }] }

/-- Authors come before the books that they wrote. -/
def library : AuthoredTypes := .ofList [
  (.entity "author", authorOfBooks),
  (.entity "book", { data := some { fields := [{ systemName := "title" }] } })]

theorem library_templates_filled : ∃ report state compiled,
    compile (StableIds.allocate lengthening) libraryRegistry library (.start .empty 1) =
        (.ok report, state) ∧
      report.documents.find? (.entity "author") = some compiled ∧
      (shownTemplates compiled.display compiled.edit ++
          searchTemplates compiled.search).map Template.entry =
        [("display.title", "$n: $r_R1->$nn"), ("edit.layout[0].fields[0]", ""),
          ("es_data.fields[0].parts.title", "$nn"), ("es_data.fields[0].base", "$r_R1"),
          ("es_data.fields[0].filter", "")] ∧
      report.advisories.filter (fun advisory => advisory.category = .emptyResolution) =
        [.emptyResolution (.entity "author") "edit.layout[0].fields[0]" "$pages" ["$pages"],
          .emptyResolution (.entity "author") "es_data.fields[0].filter" "$pages" ["$pages"]] := by
  have hok : (compile (StableIds.allocate lengthening) libraryRegistry library
    (.start .empty 1)).1.isOk = true := rfl
  obtain ⟨report, state, hreport⟩ := exists_report hok
  let symbols := (SymbolTable.empty.publish (.entity "author") (.ofList [("name", "n")])).publish
    (.entity "book") (.ofList [("title", "nn")])
  have hsymbols : report.symbols = symbols := by
    have hpublished : (compile (StableIds.allocate lengthening) libraryRegistry library
      (.start .empty 1)).1.toOption.map Report.symbols = some symbols := rfl
    rw [hreport] at hpublished
    exact Option.some.inj hpublished
  obtain ⟨hsections, hadvisories⟩ := compile_fills_templates hreport rfl
  obtain ⟨compiled, hfound, hlinked⟩ := hsections (.entity "author") authorOfBooks rfl
  refine ⟨report, state, compiled, hreport, hfound, hlinked.texts.trans ?_, hadvisories.trans ?_⟩
  · rw [hsymbols]
    decide +kernel
  · rw [hsymbols]
    decide +kernel

end SchemaLink
