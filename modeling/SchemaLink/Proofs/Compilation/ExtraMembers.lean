import SchemaLink.Proofs.Compilation.Frame
import SchemaLink.Proofs.Document.Extras

/-! # Extra members of compiled documents

What the compiler does not model is carried from the text of a document into its compiled
sections, object by object, however the references around it change. The data section alone
has no place for extra members of its own, only for those of its fields. -/

namespace SchemaLink

open Json (Written WritesExtra)
open Json.Reader (Items)

/-! ## Relinked sections -/

section Sections

variable {registry : Registry} {condition : String → String}

theorem FieldDeclaration.carries_relinked (written : Written) (declared field : FieldDeclaration)
    (h : FieldDeclaration.Carries written declared) (hrelinked : declared.Relinked registry field) :
    FieldDeclaration.Carries written field :=
  writesExtra.carriedTo_congr (by rw [hrelinked.eq]) h

theorem PanelField.carries_relinked (written : Written) (item linked : PanelField)
    (h : PanelField.Carries written item) (hrelinked : item.Relinked condition linked) :
    PanelField.Carries written linked :=
  writesExtra.carriedTo_congr hrelinked.extra h

theorem Panel.carries_relinked (written : Written) (panel linked : Panel)
    (h : Panel.Carries written panel) (hrelinked : panel.Relinked condition linked) :
    Panel.Carries written linked where
  extra := writesExtra.carriedTo_congr hrelinked.extra h.extra
  fields := .of_rel (items_of_rel PanelField.carries_relinked) h.fields hrelinked.fields

theorem DisplaySection.carries_relinked (written : Written) (display linked : DisplaySection)
    (h : DisplaySection.Carries written display) (hrelinked : display.Relinked condition linked) :
    DisplaySection.Carries written linked where
  extra := writesExtra.carriedTo_congr hrelinked.extra h.extra
  layout := .of_rel (items_of_rel Panel.carries_relinked) h.layout hrelinked.layout

theorem EditSection.carries_relinked (written : Written) (edit linked : EditSection)
    (h : EditSection.Carries written edit) (hrelinked : edit.Relinked linked) :
    EditSection.Carries written linked where
  extra := writesExtra.carriedTo_congr hrelinked.extra h.extra
  layout := .of_rel (items_of_rel Panel.carries_relinked) h.layout hrelinked.layout

theorem SearchField.carries_relinked (written : Written) (field linked : SearchField)
    (h : SearchField.Carries written field) (hrelinked : field.Relinked linked) :
    SearchField.Carries written linked :=
  writesExtra.carriedTo_congr hrelinked.extra h

theorem SearchSection.carries_relinked (written : Written) (search linked : SearchSection)
    (h : SearchSection.Carries written search) (hrelinked : search.Relinked registry linked) :
    SearchSection.Carries written linked where
  extra := writesExtra.carriedTo_congr hrelinked.extra h.extra
  fields := .of_rel (items_of_rel SearchField.carries_relinked) h.fields hrelinked.fields

end Sections

/-! ## Data sections -/

/-- Every item that is written has its field under the id that was given for it. The extra members
of the section itself are there only if there are none. -/
structure CompiledData.Carries (given : List String) (written : Written) (compiled : CompiledData) :
    Prop where
  fields : Written.Spells (Items fun item id => ∃ field, compiled.fields.find? id = some field ∧
    FieldDeclaration.Carries item field) [] (written.last? DataSection.form.keys "fields") given
  extra : written.CarriedTo DataSection.form.keys compiled.toJson ↔
    ∀ key ∉ DataSection.form.keys, written.last? DataSection.form.keys key = none

theorem CompiledData.carriedTo_iff (written : Written) (compiled : CompiledData) :
    written.CarriedTo DataSection.form.keys compiled.toJson ↔
      ∀ key ∉ DataSection.form.keys, written.last? DataSection.form.keys key = none := by
  have hmembers : ∀ key ∉ DataSection.form.keys,
      (([("fields", mapJson FieldDeclaration.toJson compiled.fields),
        ("permissions", permissionsJson compiled.permissions)].filter fun member =>
          member.1 = key).map fun member => some member.2) = [] := by
    intro key hkey
    have hfields : "fields" ≠ key := fun heq => hkey (heq ▸ by decide)
    have hpermissions : "permissions" ≠ key := fun heq => hkey (heq ▸ by decide)
    simp [hfields, hpermissions]
  constructor
  · rintro ⟨members, hjson, hcarried⟩ key hkey
    obtain rfl := Json.object.inj hjson
    have hlast := hcarried key hkey
    rw [hmembers key hkey] at hlast
    cases hfound : written.last? DataSection.form.keys key with
    | none => rfl
    | some member => rw [hfound] at hlast; cases hlast
  · intro hnone
    refine ⟨_, rfl, fun key hkey => ?_⟩
    rw [hmembers key hkey, hnone key hkey]
    rfl

theorem CompiledData.carries_relinked {registry : Registry} {given : List String}
    (hnodup : given.Nodup) (written : Written) (data : DataSection) (compiled : CompiledData)
    (h : DataSection.Carries written data) (hrelinked : data.Relinked registry given compiled) :
    CompiledData.Carries given written compiled := by
  obtain ⟨hlength, hfound⟩ := hrelinked.ids
  have hkeys : ((given.zip data.fields).map Prod.fst).Nodup := by
    rwa [List.map_fst_zip (Nat.le_of_eq hlength)]
  have hfield : ∀ id declared item, (id, declared) ∈ given.zip data.fields →
      FieldDeclaration.Carries item declared → ∃ field, compiled.fields.find? id = some field ∧
        FieldDeclaration.Carries item field := by
    intro id declared item hmem hcarries
    obtain ⟨field, hfield⟩ := Option.isSome_iff_exists.1 (hfound id (List.of_mem_zip hmem).1)
    obtain ⟨declared', hmem', hfieldRelinked⟩ := hrelinked.fields id field hfield
    have heq := List.inj_on_of_nodup_map hkeys hmem hmem' rfl
    obtain rfl : declared = declared' := congrArg Prod.snd heq
    exact ⟨field, hfield, FieldDeclaration.carries_relinked item declared field hcarries
      hfieldRelinked⟩
  refine ⟨Written.Spells.imp h (fun hmissing => ?_) fun part hpart => ?_,
    carriedTo_iff written compiled⟩
  · rw [hmissing] at hlength
    exact List.length_eq_zero_iff.1 hlength
  · obtain ⟨items, rfl, hitems⟩ := hpart
    exact ⟨items, rfl, forall₂_of_zip hitems hlength hfield⟩

/-! ## Documents -/

/-- No id is given twice. -/
def IdAllocator.NeverRepeats {σ : Type} (ids : IdAllocator σ) (state : σ) : Prop :=
  ∀ requests, (ids.run requests state).1.Nodup

theorem IdAllocator.NeverRepeats.nodup_given {σ : Type} {ids : IdAllocator σ} {state : σ}
    (h : ids.NeverRepeats state) (documents : AuthoredTypes) (owner : TypeRef) :
    (ids.given documents state owner).Nodup := by
  have hlength := ids.length_run (requests documents.toList) state
  have hall : ((requests documents.toList).zip
      (ids.run (requests documents.toList) state).1).map Prod.snd =
        (ids.run (requests documents.toList) state).1 := List.map_snd_zip (Nat.le_of_eq hlength)
  refine (h (requests documents.toList)).sublist ?_
  unfold given givenTo
  nth_rewrite 2 [← hall]
  exact List.filter_sublist.map _

/-- Stable ids that start without a history are all minted. -/
theorem StableIds.neverRepeats_of_fresh {μ : Type} {mint : μ → String × μ} {minter : μ}
    (h : ∀ count, (drawn mint count minter).Nodup) :
    (StableIds.allocate mint).NeverRepeats (.start .empty minter) := by
  have hrun : ∀ (requests served : List (TypeRef × String)) (minter : μ),
      ((StableIds.allocate mint).run requests ⟨.empty, served, minter⟩).1 =
        drawn mint requests.length minter := by
    intro requests
    induction requests with
    | nil => exact fun _ _ => rfl
    | cons first requests ih =>
        intro served minter
        have hleft : History.empty.left served first = [] := by simp [History.left]
        rw [run_cons_minted hleft, ih]
        rfl
  intro requests
  exact hrun requests [] minter ▸ h requests.length

/-- The sections of a compiled document carry what is written for them. -/
structure CompiledDocument.Carries (given : List String) (written : Written)
    (compiled : CompiledDocument) : Prop where
  data : CarriesPart (CompiledData.Carries given) TypeDocument.form.keys "data" written
    compiled.data
  display : CarriesPart DisplaySection.Carries TypeDocument.form.keys "display" written
    compiled.display
  edit : CarriesPart EditSection.Carries TypeDocument.form.keys "edit" written compiled.edit
  search : CarriesPart SearchSection.Carries TypeDocument.form.keys "es_data" written
    compiled.search

section Reports

variable {σ : Type} {ids : IdAllocator σ} {registry : Registry} {documents : AuthoredTypes}
  {state state' : σ} {report : Report} {owner : TypeRef} {doc : TypeDocument}

/-- Of every text that is a document, the members that the compiler does not model are in the
compiled sections, in the objects that they were written in and with the values that stand last.
Those of the data section itself are there only if there are none. -/
theorem extra_members_survive {text : String} (hparse : TypeDocument.parse text = .ok doc)
    (hdoc : documents.find? owner = some doc) (hids : ids.NeverRepeats state)
    (hrelations : registry.hasRelations = true)
    (h : compile ids registry documents state = (.ok report, state')) :
    ∃ written compiled, Json.scan text.toList = Written.tokens written ∧
      report.documents.find? owner = some compiled ∧
      compiled.Carries (ids.given documents state owner) written := by
  obtain ⟨written, htokens, hcarries⟩ := TypeDocument.carries_of_parse hparse
  obtain ⟨compiled, hfound, houtlined, hsections⟩ := relinked_of_compile h hdoc
  rw [if_pos hrelations] at hsections
  refine ⟨written, compiled, htokens, hfound, ?_, ?_, ?_, ?_⟩
  · exact .of_rel (CompiledData.carries_relinked (hids.nodup_given documents owner)) hcarries.data
      houtlined.data
  · exact .of_rel DisplaySection.carries_relinked hcarries.display hsections.display
  · exact .of_rel EditSection.carries_relinked hcarries.edit hsections.edit
  · exact .of_rel SearchSection.carries_relinked hcarries.search hsections.search

end Reports

/-! ## A book with notes -/

/-- A text with a member in each section that the compiler does not model. -/
def notedBook : String :=
  "\x7b\"data\": \x7b\"fields\": [], \"note\": 1\x7d, \"display\": \x7b\"icon\": \"book\"\x7d, " ++
  "\"edit\": \x7b\"mode\": 2\x7d, \"es_data\": \x7b\"boost\": 3\x7d\x7d"

def notedDocument : TypeDocument where
  data := some {}
  display := some { extra := .ofList [("icon", .string "book")] }
  edit := some { extra := .ofList [("mode", .number (.integer 2))] }
  search := some { extra := .ofList [("boost", .number (.integer 3))] }

/-- How the text is written. -/
def notedWritten : Written :=
  let text (content : String) : Json.Quotation := ⟨.ok content, .ok ()⟩
  .object [
    (text "data", .object [(text "fields", .list []),
      (text "note", .number (.ok (.integer 1)) (.ok ()))]),
    (text "display", .object [(text "icon", .string (text "book"))]),
    (text "edit", .object [(text "mode", .number (.ok (.integer 2)) (.ok ()))]),
    (text "es_data", .object [(text "boost", .number (.ok (.integer 3)) (.ok ()))])]

set_option maxRecDepth 2000 in
theorem scan_notedBook : Json.scan notedBook.toList = notedWritten.tokens := by
  with_unfolding_all rfl

theorem parse_notedBook : TypeDocument.parse notedBook = .ok notedDocument := by
  unfold TypeDocument.parse Json.Record.parse Json.Reader.run
  rw [scan_notedBook]
  rfl

/-- What a book with notes is compiled from. -/
def notedTypes : AuthoredTypes := .ofList [(.entity "book", notedDocument)]

theorem exists_text_notedTypes (owner : TypeRef) (doc : TypeDocument)
    (h : notedTypes.find? owner = some doc) : ∃ text, TypeDocument.parse text = .ok doc := by
  obtain ⟨-, rfl⟩ := SortedMap.eq_of_find?_singleton h
  exact ⟨notedBook, parse_notedBook⟩

theorem exists_report_notedBook : ∃ report state, compile (StableIds.allocate lengthening)
    { relations := some ∅ } notedTypes (.start .empty 1) = (.ok report, state) :=
  exists_report rfl

theorem notedBook_carries_notes : ∃ report state written compiled,
    compile (StableIds.allocate lengthening) { relations := some ∅ } notedTypes
        (.start .empty 1) = (.ok report, state) ∧
      Json.scan notedBook.toList = Written.tokens written ∧
      report.documents.find? (.entity "book") = some compiled ∧ compiled.Carries [] written := by
  obtain ⟨report, state, hreport⟩ := exists_report_notedBook
  have hdoc : notedTypes.find? (.entity "book") = some notedDocument := rfl
  have hfresh : Fresh lengthening (fun _ => False) 1 := fresh_lengthening nofun
  obtain ⟨written, compiled, htokens, hfound, hcarries⟩ := extra_members_survive parse_notedBook
    hdoc (StableIds.neverRepeats_of_fresh hfresh.nodup) rfl hreport
  exact ⟨report, state, written, compiled, hreport, htokens, hfound, hcarries⟩

/-- The note is in the text, and the compiled data section is without it. -/
theorem note_of_data_is_lost : ∃ report state compiled data,
    TypeDocument.parse notedBook = .ok notedDocument ∧
      compile (StableIds.allocate lengthening) { relations := some ∅ } notedTypes
        (.start .empty 1) = (.ok report, state) ∧
      report.documents.find? (.entity "book") = some compiled ∧ compiled.data = some data ∧
      ∀ written, Json.scan notedBook.toList = Written.tokens written →
        ∃ part, written.last? TypeDocument.form.keys "data" = some part ∧
          ((part.last? DataSection.form.keys "note").bind Written.value).isSome ∧
          ¬ part.CarriedTo DataSection.form.keys data.toJson := by
  obtain ⟨report, state, hreport⟩ := exists_report_notedBook
  have hdoc : notedTypes.find? (.entity "book") = some notedDocument := rfl
  obtain ⟨compiled, hfound, houtlined, -⟩ := relinked_of_compile hreport hdoc
  obtain ⟨data, hdata⟩ : ∃ data, compiled.data = some data := by
    have hsection : notedDocument.data = some {} := rfl
    have hrel := houtlined.data
    rw [hsection] at hrel
    generalize compiled.data = found at hrel
    cases hrel
    exact ⟨_, rfl⟩
  refine ⟨report, state, compiled, data, parse_notedBook, hreport, hfound, hdata, ?_⟩
  intro written hwritten
  have hsame : notedWritten.tokens ++ [] = written.tokens ++ [] := by
    rw [← scan_notedBook, hwritten]
  obtain ⟨rfl, -⟩ := Written.tokens_inj _ _ hsame
  refine ⟨_, rfl, rfl, fun hcarried => ?_⟩
  have hnone := (CompiledData.carriedTo_iff _ data).1 hcarried "note" (by decide)
  cases hnone

end SchemaLink
