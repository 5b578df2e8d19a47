import SchemaLink.Proofs.Compilation.ExtraMembers
import SchemaLink.Proofs.Compilation.FixedPoint

/-! # Output on record

From the text of a compiled document all its fields are recorded: every system name with the ids of
the fields that bear it, and nothing else. All that could keep a text from being read is a field
with another system name among its extra keys, and no document that is compiled from texts has
one. -/

namespace SchemaLink

/-! ## Fields of output -/

/-- The fields of a compiled document by id. There are none without a data section. -/
def CompiledDocument.fields (doc : CompiledDocument) : SortedMap String FieldDeclaration :=
  match doc.data with
  | none => ∅
  | some data => data.fields

theorem CompiledDocument.systemNames_eq (doc : CompiledDocument) :
    doc.systemNames = doc.fields.mapWithKey fun _ field => field.systemName := by
  unfold systemNames fields
  cases doc.data <;> rfl

theorem CompiledDocument.size_systemNames (doc : CompiledDocument) :
    doc.systemNames.size = doc.fields.size := by
  rw [systemNames_eq, SortedMap.size, SortedMap.mapWithKey, List.length_map]
  rfl

/-- A history in which the fields of a document, output of its type, are on record and nothing
else: the ids of each system name, in ascending order. -/
structure CompiledDocument.OnRecord (doc : CompiledDocument) (owner : TypeRef)
    (history : History) : Prop where
  ascending : ∀ name, (history.ids owner name).Pairwise fun a b => compare a b = .lt
  mem_ids : ∀ name id, id ∈ history.ids owner name ↔
    ∃ field, doc.fields.find? id = some field ∧ field.systemName = name
  others : ∀ type, type ≠ owner → ∀ name, history.ids type name = []

theorem CompiledDocument.onRecord_absorb (doc : CompiledDocument) (owner : TypeRef) :
    doc.OnRecord owner (History.empty.absorb owner doc.systemNames) where
  ascending name := by
    rw [History.ids_absorb_first _ _ _ _ rfl]
    exact idsNamed_ascending _ _
  mem_ids name id := by
    rw [History.ids_absorb_first _ _ _ _ rfl, mem_idsNamed, systemNames_eq,
      SortedMap.find?_mapWithKey, Option.map_eq_some_iff]
  others type htype name := by
    rw [History.ids_absorb_of_ne _ _ htype, History.ids_empty]

/-- The text of a compiled document is recorded as soon as it can be read. -/
theorem History.absorbText_text {doc : CompiledDocument} (h : doc.NamesOnce) (owner : TypeRef)
    (indent : Nat) : empty.absorbText owner (doc.text indent) =
      .ok (doc.fields.size, empty.absorb owner doc.systemNames) := by
  rw [absorbText, CompiledDocument.readOutput_text_eq_ok_iff.2 ⟨h, rfl⟩, Except.map,
    doc.size_systemNames]

/-! ## Recording output -/

/-- The text of a compiled document, however it is indented, puts all fields on record under their
system names, and their number is counted, provided that no field has another system name among
its extra keys; otherwise the text is refused. What other extra members there are makes no
difference, and a document without a data section counts no field. Whatever is compiled from
documents that were read from texts has only one system name in each field. -/
theorem output_goes_on_record (doc : CompiledDocument) (owner : TypeRef) (indent : Nat) :
    let absorbed := History.empty.absorbText owner (doc.text indent)
    (doc.NamesOnce → ∃ history, absorbed = .ok (doc.fields.size, history) ∧
      doc.OnRecord owner history) ∧
    ((∃ recorded, absorbed = .ok recorded) → doc.NamesOnce) ∧
    (doc.data = none → absorbed = .ok (0, .empty)) ∧
    ∀ {σ : Type} (ids : IdAllocator σ) registry documents state report state',
      (∀ type authored, documents.find? type = some authored →
        ∃ text, TypeDocument.parse text = .ok authored) →
      compile ids registry documents state = (.ok report, state') →
      report.documents.find? owner = some doc → doc.NamesOnce := by
  intro absorbed
  refine ⟨fun honce => ?_, ?_, fun hnone => ?_, ?_⟩
  · exact ⟨_, History.absorbText_text honce owner indent, doc.onRecord_absorb owner⟩
  · rintro ⟨recorded, hrecorded⟩
    obtain ⟨names, hnames, -⟩ := exists_of_map_eq_ok hrecorded
    exact (CompiledDocument.readOutput_text_eq_ok_iff.1 hnames).1
  · have honce : doc.NamesOnce := by
      intro data hdata
      rw [hnone] at hdata
      cases hdata
    have hnames : doc.systemNames = ∅ := by rw [CompiledDocument.systemNames, hnone]
    have hsize : doc.fields.size = 0 := by
      rw [← doc.size_systemNames, hnames]
      rfl
    have habsorb : History.empty.absorb owner doc.systemNames = .empty := by
      rw [hnames]
      rfl
    rw [← hsize, ← habsorb]
    exact History.absorbText_text honce owner indent
  · intro σ ids registry documents state report state' hauthored hcompile hfound
    obtain ⟨names, hnames⟩ :=
      Report.readable_of_parse hcompile hauthored indent owner doc hfound
    exact (CompiledDocument.readOutput_text_eq_ok_iff.1 hnames).1

/-! ## A name in quotation marks -/

/-- Two fields that share a name with quotation marks in it, and one more. A note beside one of them
and the detail of the document have members with the keys of sections. -/
def quotedNames : CompiledDocument where
  detail := some (.object [("data", .list [.null]), ("fields", .null)])
  data := some { fields := .ofList [
    ("f9", { systemName := "so \"called\""
             extra := .ofList [("note", .object [("system_name", .null)])] }),
    ("f1", { systemName := "so \"called\"", valueType := some "text" }),
    ("f5", { systemName := "year" })] }

theorem namesOnce_quotedNames : quotedNames.NamesOnce := by
  rintro _ ⟨⟩
  exact List.forall_mem_cons.2 ⟨rfl, List.forall_mem_cons.2 ⟨rfl, List.forall_mem_singleton.2 rfl⟩⟩

/-- Both ids of the shared name are recorded, and not the id of the other field; and nothing keeps
the output of the book with notes from being read. -/
theorem quotedNames_goes_on_record :
    quotedNames.NamesOnce ∧
    (∃ history, History.empty.absorbText (.entity "book") (quotedNames.text 2) = .ok (3, history) ∧
      "f1" ∈ history.ids (.entity "book") "so \"called\"" ∧
      "f9" ∈ history.ids (.entity "book") "so \"called\"" ∧
      "f5" ∉ history.ids (.entity "book") "so \"called\"" ∧
      history.ids (.relation "book") "year" = []) ∧
    History.empty.absorbText (.entity "book") ({ quotedNames with data := none }.text 2) =
      .ok (0, .empty) ∧
    ∃ report state compiled,
      compile (StableIds.allocate lengthening) { relations := some ∅ } notedTypes
        (.start .empty 1) = (.ok report, state) ∧
      report.documents.find? (.entity "book") = some compiled ∧ compiled.NamesOnce := by
  obtain ⟨hrecord, -⟩ := output_goes_on_record quotedNames (.entity "book") 2
  obtain ⟨history, habsorbed, honRecord⟩ := hrecord namesOnce_quotedNames
  obtain ⟨-, -, hnone, -⟩ :=
    output_goes_on_record { quotedNames with data := none } (.entity "book") 2
  refine ⟨namesOnce_quotedNames, ⟨history, habsorbed, ?_, ?_, ?_, ?_⟩, hnone rfl, ?_⟩
  · exact (honRecord.mem_ids _ _).2 ⟨_, rfl, rfl⟩
  · exact (honRecord.mem_ids _ _).2 ⟨_, rfl, rfl⟩
  · intro hmem
    obtain ⟨field, hfield, hname⟩ := (honRecord.mem_ids _ _).1 hmem
    cases hfield
    exact absurd hname (by decide)
  · exact honRecord.others _ (by decide) _
  · obtain ⟨report, state, hreport⟩ := exists_report_notedBook
    have hfind : notedTypes.find? (.entity "book") = some notedDocument := rfl
    obtain ⟨compiled, hfound, -⟩ := relinked_of_compile hreport hfind
    obtain ⟨-, -, -, honce⟩ := output_goes_on_record compiled (.entity "book") 2
    exact ⟨report, state, compiled, hreport, hfound, honce _ _ _ _ _ _ exists_text_notedTypes
      hreport hfound⟩

end SchemaLink
