import SchemaLink.Proofs.Compilation.ExtraMembers
import SchemaLink.Proofs.Document.Numbers
import SchemaLink.Proofs.Document.Restoring

/-! # Documents that survive their text

A document that has been read from a text, and a document that is compiled from such, is the
same again when it is read from what is written of it. Compilation changes references only, so
what has been kept as it was read is so in the compiled document, too. -/

namespace SchemaLink

/-! ## Relinked sections -/

section Sections

variable {registry : Registry} {condition : String → String} {depth : Nat}

theorem FieldDeclaration.settled_relinked {declared field : FieldDeclaration}
    (hrelinked : declared.Relinked registry field) (h : declared.Settled depth) :
    field.Settled depth := by
  rw [hrelinked.eq]
  exact h

theorem DataSection.settled_relinked {given : List String} (data : DataSection)
    (compiled : CompiledData) (hrelinked : data.Relinked registry given compiled)
    (h : data.Settled depth) : compiled.Settled depth := by
  intro entry hentry
  obtain ⟨declared, hmem, hfield⟩ :=
    hrelinked.fields entry.1 entry.2 (SortedMap.find?_eq_some_iff.2 hentry)
  exact FieldDeclaration.settled_relinked hfield (h declared (List.of_mem_zip hmem).2)

theorem PanelField.settled_relinked (item linked : PanelField)
    (hrelinked : item.Relinked condition linked) (h : item.Settled depth) :
    linked.Settled depth := by
  unfold Settled
  rw [hrelinked.extra]
  exact h

theorem Panel.settled_relinked (panel linked : Panel) (hrelinked : panel.Relinked condition linked)
    (h : panel.Settled depth) : linked.Settled depth where
  extra := hrelinked.extra ▸ h.extra
  fields := forall_items_of_rel PanelField.settled_relinked hrelinked.fields h.fields

theorem DisplaySection.settled_relinked (display linked : DisplaySection)
    (hrelinked : display.Relinked condition linked) (h : display.Settled depth) :
    linked.Settled depth where
  extra := hrelinked.extra ▸ h.extra
  layout := forall_items_of_rel Panel.settled_relinked hrelinked.layout h.layout

theorem EditSection.settled_relinked (edit linked : EditSection) (hrelinked : edit.Relinked linked)
    (h : edit.Settled depth) : linked.Settled depth where
  extra := hrelinked.extra ▸ h.extra
  layout := forall_items_of_rel Panel.settled_relinked hrelinked.layout h.layout

theorem SearchField.settled_relinked (field linked : SearchField)
    (hrelinked : field.Relinked linked) (h : field.Settled depth) : linked.Settled depth := by
  unfold Settled
  rw [hrelinked.extra]
  exact h

theorem SearchSection.settled_relinked (search linked : SearchSection)
    (hrelinked : search.Relinked registry linked) (h : search.Settled depth) :
    linked.Settled depth where
  extra := hrelinked.extra ▸ h.extra
  fields := forall_items_of_rel SearchField.settled_relinked hrelinked.fields h.fields

end Sections

/-! ## Numbers in relinked sections -/

section Numbers

variable {registry : Registry} {condition : String → String}

theorem FieldDeclaration.whole_relinked {declared field : FieldDeclaration}
    (hrelinked : declared.Relinked registry field) (h : declared.toJson.Whole) :
    field.toJson.Whole := by
  rw [whole_toJson] at h ⊢
  rwa [hrelinked.eq]

theorem DataSection.whole_relinked {given : List String} (data : DataSection)
    (compiled : CompiledData) (hrelinked : data.Relinked registry given compiled)
    (h : data.toJson.Whole) : compiled.toJson.Whole := by
  rw [whole_toJson] at h
  rw [CompiledData.whole_toJson]
  intro entry hentry
  obtain ⟨declared, hmem, hfield⟩ :=
    hrelinked.fields entry.1 entry.2 (SortedMap.find?_eq_some_iff.2 hentry)
  exact FieldDeclaration.whole_relinked hfield (h declared (List.of_mem_zip hmem).2)

theorem PanelField.whole_relinked (item linked : PanelField)
    (hrelinked : item.Relinked condition linked) (h : item.toJson.Whole) :
    linked.toJson.Whole := by
  rw [whole_toJson] at h ⊢
  rwa [hrelinked.extra]

theorem Panel.whole_relinked (panel linked : Panel) (hrelinked : panel.Relinked condition linked)
    (h : panel.toJson.Whole) : linked.toJson.Whole := by
  rw [whole_toJson] at h ⊢
  exact ⟨forall_items_of_rel PanelField.whole_relinked hrelinked.fields h.1,
    hrelinked.extra ▸ h.2⟩

theorem DisplaySection.whole_relinked (display linked : DisplaySection)
    (hrelinked : display.Relinked condition linked) (h : display.toJson.Whole) :
    linked.toJson.Whole := by
  rw [whole_toJson] at h ⊢
  exact ⟨forall_items_of_rel Panel.whole_relinked hrelinked.layout h.1, hrelinked.extra ▸ h.2⟩

theorem EditSection.whole_relinked (edit linked : EditSection) (hrelinked : edit.Relinked linked)
    (h : edit.toJson.Whole) : linked.toJson.Whole := by
  rw [whole_toJson] at h ⊢
  exact ⟨forall_items_of_rel Panel.whole_relinked hrelinked.layout h.1, hrelinked.extra ▸ h.2⟩

theorem SearchField.whole_relinked (field linked : SearchField) (hrelinked : field.Relinked linked)
    (h : field.toJson.Whole) : linked.toJson.Whole := by
  rw [whole_toJson] at h ⊢
  rwa [hrelinked.extra]

theorem SearchSection.whole_relinked (search linked : SearchSection)
    (hrelinked : search.Relinked registry linked) (h : search.toJson.Whole) :
    linked.toJson.Whole := by
  rw [whole_toJson] at h ⊢
  exact ⟨forall_items_of_rel SearchField.whole_relinked hrelinked.fields h.1, hrelinked.extra ▸ h.2⟩

end Numbers

/-! ## Documents -/

section Documents

variable {σ : Type} {ids : IdAllocator σ} {registry : Registry} {documents : AuthoredTypes}
  {state state' : σ} {report : Report} {owner : TypeRef} {compiled : CompiledDocument}

theorem settled_of_compile (h : compile ids registry documents state = (.ok report, state'))
    {doc : TypeDocument} {depth : Nat} (hsettled : doc.Settled depth)
    (hdoc : documents.find? owner = some doc)
    (hcompiled : report.documents.find? owner = some compiled) : compiled.Settled depth := by
  obtain ⟨_, hfound, houtlined, hsections⟩ := relinked_of_compile h hdoc
  obtain rfl := Option.some.inj (hfound.symm.trans hcompiled)
  have hdata := forall_of_rel DataSection.settled_relinked houtlined.data hsettled.data
  split at hsections
  · exact
      { detail := houtlined.detail ▸ hsettled.detail
        source := houtlined.source ▸ hsettled.source
        data := hdata
        display := forall_of_rel DisplaySection.settled_relinked hsections.display hsettled.display
        edit := forall_of_rel EditSection.settled_relinked hsections.edit hsettled.edit
        search := forall_of_rel SearchSection.settled_relinked hsections.search hsettled.search
        searchDisplay := hsections.searchDisplay ▸ hsettled.searchDisplay }
  · obtain ⟨hdisplay, hedit, hsearch, hshown⟩ := hsections
    constructor
    case detail => exact houtlined.detail ▸ hsettled.detail
    case source => exact houtlined.source ▸ hsettled.source
    case data => exact hdata
    all_goals simp [hdisplay, hedit, hsearch, hshown]

theorem whole_of_compile (h : compile ids registry documents state = (.ok report, state'))
    {doc : TypeDocument} (hwhole : doc.toJson.Whole) (hdoc : documents.find? owner = some doc)
    (hcompiled : report.documents.find? owner = some compiled) : compiled.toJson.Whole := by
  obtain ⟨_, hfound, houtlined, hsections⟩ := relinked_of_compile h hdoc
  obtain rfl := Option.some.inj (hfound.symm.trans hcompiled)
  obtain ⟨hdetail, hsource, hdata, hdisplay, hedit, hsearch, hshown⟩ :=
    TypeDocument.whole_toJson.1 hwhole
  rw [CompiledDocument.whole_toJson, houtlined.detail, houtlined.source]
  refine ⟨hdetail, hsource, forall_of_rel DataSection.whole_relinked houtlined.data hdata, ?_⟩
  split at hsections
  · rw [hsections.searchDisplay]
    exact ⟨forall_of_rel DisplaySection.whole_relinked hsections.display hdisplay,
      forall_of_rel EditSection.whole_relinked hsections.edit hedit,
      forall_of_rel SearchSection.whole_relinked hsections.search hsearch, hshown⟩
  · simp [hsections]

/-- Documents survive their text if all numbers in them are whole: in one line or indented by any
number of blanks, what is written of a document is read as this document. This is so of every
document that is accepted, and of every one that is compiled from such. A compiled document has
no numbers but those of the authored one. -/
theorem documents_survive_text (ids : IdAllocator σ) (registry : Registry) :
    (∀ text doc, TypeDocument.parse text = .ok doc → doc.toJson.Whole →
      RoundTrips TypeDocument.parse TypeDocument.text doc ∧
        ∀ indent, RoundTrips TypeDocument.parse (fun doc => doc.toJson.indentedText indent) doc) ∧
    ∀ documents state report state',
      (∀ owner doc, documents.find? owner = some doc →
        ∃ text, TypeDocument.parse text = .ok doc) →
      compile ids registry documents state = (.ok report, state') →
      ∀ owner compiled, report.documents.find? owner = some compiled →
        (∃ doc, documents.find? owner = some doc ∧
          (doc.toJson.Whole → compiled.toJson.Whole)) ∧
        (compiled.toJson.Whole →
          RoundTrips CompiledDocument.parse (fun doc => doc.toJson.compactText) compiled ∧
            ∀ indent, RoundTrips CompiledDocument.parse (fun doc => doc.text indent) compiled) := by
  refine ⟨fun text doc hparse hwhole => ?_, ?_⟩
  · have hread {style : Json.Style} (hstyle : style.Plain) :=
      TypeDocument.parse_render (TypeDocument.settled_of_parse hparse) hwhole hstyle
    exact ⟨roundTrips_of_read (hread Json.Style.plain_compact),
      fun indent => roundTrips_of_read (hread (Json.Style.plain_indented indent))⟩
  · intro documents state report state' hauthored hcompile owner compiled hcompiled
    obtain ⟨doc, hdoc⟩ := find?_of_find?_report hcompile hcompiled
    obtain ⟨text, hparse⟩ := hauthored owner doc hdoc
    refine ⟨⟨doc, hdoc, fun hwhole => whole_of_compile hcompile hwhole hdoc hcompiled⟩, ?_⟩
    intro hwhole
    have hsettled := settled_of_compile hcompile (TypeDocument.settled_of_parse hparse) hdoc
      hcompiled
    have hread {style : Json.Style} (hstyle : style.Plain) :=
      CompiledDocument.parse_render hsettled hwhole hstyle
    exact ⟨roundTrips_of_read (hread Json.Style.plain_compact),
      fun indent => roundTrips_of_read (hread (Json.Style.plain_indented indent))⟩

end Documents

/-- The book with notes and the document that it is compiled into, written and read again. -/
theorem notedBook_survives_text : ∃ report state compiled,
    TypeDocument.parse notedBook = .ok notedDocument ∧ notedDocument.toJson.Whole ∧
      TypeDocument.parse notedDocument.text = .ok notedDocument ∧
      compile (StableIds.allocate lengthening) { relations := some ∅ } notedTypes
        (.start .empty 1) = (.ok report, state) ∧
      report.documents.find? (.entity "book") = some compiled ∧
      CompiledDocument.parse (compiled.text 2) = .ok compiled := by
  obtain ⟨hauthored, hcompiled⟩ :=
    documents_survive_text (StableIds.allocate lengthening) { relations := some ∅ }
  have hwhole : notedDocument.toJson.Whole := by decide
  obtain ⟨report, state, hreport⟩ := exists_report_notedBook
  have hfind : notedTypes.find? (.entity "book") = some notedDocument := rfl
  obtain ⟨compiled, hfound, -⟩ := relinked_of_compile hreport hfind
  obtain ⟨⟨doc, hdoc, hkeeps⟩, hsurvives⟩ :=
    hcompiled notedTypes _ report state exists_text_notedTypes hreport _ compiled hfound
  obtain rfl := Option.some.inj (hfind.symm.trans hdoc)
  exact ⟨report, state, compiled, parse_notedBook, hwhole,
    (hauthored notedBook notedDocument parse_notedBook hwhole).1.read, hreport, hfound,
    ((hsurvives (hkeeps hwhole)).2 2).read⟩

end SchemaLink
