import SchemaLink.Compilation.Session
import SchemaLink.Proofs.Compilation.Lookups
import SchemaLink.Proofs.Ids.Ownership

/-! # Ids across a session

Whatever is edited, dropped and added again, whichever compilations fail and whichever
are saved: an id stays with the type and the name that it was minted for, in every output
that is saved, and within one output every declared field has an id of its own. -/

namespace SchemaLink

/-! ## Ids in a report -/

theorem Report.field?_eq_some_iff {report : Report} {type : TypeRef} {id : String}
    {field : FieldDeclaration} :
    report.field? type id = some field ↔ ∃ output data, report.documents.find? type = some output ∧
      output.data = some data ∧ data.fields.find? id = some field := by
  simp only [field?, Option.bind_eq_some_iff]
  constructor
  · rintro ⟨output, houtput, data, hdata, hfield⟩
    exact ⟨output, data, houtput, hdata, hfield⟩
  · rintro ⟨output, data, houtput, hdata, hfield⟩
    exact ⟨output, houtput, data, hdata, hfield⟩

theorem Report.exists_field?_of_systemNames {report : Report} {type : TypeRef}
    {output : CompiledDocument} {id name : String}
    (houtput : report.documents.find? type = some output)
    (hname : output.systemNames.find? id = some name) :
    ∃ field, report.field? type id = some field ∧ field.systemName = name := by
  unfold CompiledDocument.systemNames at hname
  cases hdata : output.data with
  | none =>
      rw [hdata] at hname
      cases hname
  | some data =>
      rw [hdata] at hname
      dsimp only at hname
      rw [SortedMap.find?_mapWithKey, Option.map_eq_some_iff] at hname
      rcases hname with ⟨field, hfield, rfl⟩
      exact ⟨field, Report.field?_eq_some_iff.2 ⟨output, data, houtput, hdata, hfield⟩, rfl⟩

/-- The output has all declared fields of its types and nothing else, every one of them under an
id of its own. -/
def Compiled.LabelsFields (compiled : Compiled) : Prop :=
  ∀ type output, compiled.report.documents.find? type = some output →
    ∃ doc, compiled.documents.find? type = some doc ∧
      match doc.data with
      | none => output.data = none
      | some data => ∃ (result : CompiledData) (ids : List String),
          output.data = some result ∧ ids.Nodup ∧ ids.length = data.fields.length ∧
          ∀ id field, result.fields.find? id = some field ↔
            ∃ declared, (id, declared) ∈ ids.zip data.fields ∧
              declared.resolve compiled.registry = .ok field

/-- Every id in the output is owned by the type and the name of the field that it labels. -/
def Compiled.OwnedBy (compiled : Compiled) (owners : Owners) : Prop :=
  ∀ type id field, compiled.report.field? type id = some field →
    owners id = some (type, field.systemName)

theorem Compiled.OwnedBy.extend {compiled : Compiled} {owners later : Owners}
    (h : compiled.OwnedBy owners) (hlater : later.Extends owners) : compiled.OwnedBy later :=
  fun type id field hfield => hlater id _ (h type id field hfield)

section Reports

variable {σ : Type} {ids : IdAllocator σ} {registry : Registry} {documents : AuthoredTypes}
  {state state' : σ} {report : Report}

/-- An id in the output was given to a request for the type and the name of its field. -/
theorem mem_zip_of_field? (h : compile ids registry documents state = (.ok report, state'))
    {type : TypeRef} {id : String} {field : FieldDeclaration}
    (hfield : report.field? type id = some field) :
    ((type, field.systemName), id) ∈
      (requests documents.toList).zip (ids.run (requests documents.toList) state).1 := by
  obtain ⟨output, result, houtput, hresult, hlabelled⟩ := Report.field?_eq_some_iff.1 hfield
  obtain ⟨doc, hdoc, hdata⟩ := data_of_find?_report h houtput
  rw [← mem_idsFor, ← IdAllocator.idsOfName_given ids state hdoc]
  unfold TypeDocument.declared
  cases hsection : doc.data with
  | none =>
      rw [hsection] at hdata
      rw [hdata] at hresult
      cases hresult
  | some data =>
      rw [hsection] at hdata
      rcases hdata with ⟨resolved, hresolved, hcompiled⟩
      obtain rfl := Option.some.inj (hresult.symm.trans hcompiled)
      have hmem : (id, field) ∈ (ids.given documents state type).zip resolved.fields :=
        SortedMap.mem_of_mem_ofList (SortedMap.find?_eq_some_iff.1 hlabelled)
      have hswap : (field, id) ∈ resolved.fields.zip (ids.given documents state type) := by
        rw [← List.zip_swap]
        exact List.mem_map.2 ⟨(id, field), hmem, rfl⟩
      dsimp only
      rw [← idsOfName_eq_of_systemNames field.systemName
        (ResolvedFields.of_resolve hresolved).systemNames_eq, idsOfName, List.mem_map]
      exact ⟨(field, id), List.mem_filter.2 ⟨hswap, by simp⟩, rfl⟩

theorem Compiled.ownedBy_of_compile
    (h : compile ids registry documents state = (.ok report, state')) {owners : Owners}
    (howners : ∀ entry ∈ (requests documents.toList).zip
      (ids.run (requests documents.toList) state).1, owners entry.2 = some entry.1) :
    Compiled.OwnedBy ⟨registry, documents, report⟩ owners :=
  fun _ _ _ hfield => howners _ (mem_zip_of_field? h hfield)

theorem Compiled.labelsFields_of_compile
    (h : compile ids registry documents state = (.ok report, state'))
    (hnodup : ∀ type, (ids.given documents state type).Nodup) :
    Compiled.LabelsFields ⟨registry, documents, report⟩ := by
  intro type output houtput
  obtain ⟨doc, hdoc, hdata⟩ := data_of_find?_report h houtput
  have hlength := ids.length_given state hdoc
  refine ⟨doc, hdoc, ?_⟩
  cases hsection : doc.data with
  | none =>
      rw [hsection] at hdata
      exact hdata
  | some data =>
      rw [hsection] at hdata
      rcases hdata with ⟨resolved, hresolved, hcompiled⟩
      have hfields := ResolvedFields.of_resolve hresolved
      have hsame : data.fields.length = resolved.fields.length := hfields.length_eq
      have hdeclared : doc.declared = data.fields := by simp [TypeDocument.declared, hsection]
      rw [hdeclared] at hlength
      refine ⟨_, ids.given documents state type, hcompiled, hnodup type, hlength, ?_⟩
      intro id field
      rw [DataSection.find?_compiled (hnodup type) (hlength.trans hsame)]
      exact hfields.mem_zip_iff

end Reports

/-! ## Sessions -/

namespace Session

variable {μ : Type} {mint : μ → String × μ} {session : Session μ} {owners : Owners}

/-- The last output of each of some types, if it has any. -/
def recalled (session : Session μ) (types : List TypeRef) : List (TypeRef × String) :=
  types.filterMap fun type => (session.outputs.find? type).map fun text => (type, text)

theorem history_eq (session : Session μ) (types : List TypeRef) :
    session.history types = .ofOutputs (session.recalled types) := by
  rw [history, History.ofOutputs, recalled, List.foldl_filterMap]
  congr 1
  funext history type
  rw [recallType]
  cases session.outputs.find? type <;> rfl

theorem nodup_recalled (session : Session μ) {types : List TypeRef} (h : types.Nodup) :
    ((session.recalled types).map Prod.fst).Nodup := by
  rw [recalled, List.map_filterMap]
  apply h.filterMap
  intro type type' other htype htype'
  rw [Option.mem_def, Option.map_map, Option.map_eq_some_iff] at htype htype'
  rcases htype with ⟨text, -, htype⟩
  rcases htype' with ⟨text', -, htype'⟩
  exact htype.trans htype'.symm

/-- Every id in the last outputs has an owner, and those still to be minted have none. -/
structure Owned (mint : μ → String × μ) (session : Session μ) (owners : Owners) : Prop where
  fresh : Fresh mint owners.Taken session.minter
  outputs : ∀ {type text names id name}, session.outputs.find? type = some text →
    History.readOutput text = .ok names → names.find? id = some name →
    owners id = some (type, name)

/-- Ids on record belong to the fields that they are on record for. -/
theorem Owned.of_mem_history (h : session.Owned mint owners) {types : List TypeRef}
    (htypes : types.Nodup) {type : TypeRef} {name id : String}
    (hid : id ∈ (session.history types).ids type name) : owners id = some (type, name) := by
  rw [history_eq, History.ids_ofOutputs _ _ (session.nodup_recalled htypes), mem_idsNamed] at hid
  obtain ⟨text, names, hmem, hread, hname⟩ := History.exists_output_of_find?_outputNames hid
  obtain ⟨type', -, hmem⟩ := List.mem_filterMap.1 hmem
  rcases Option.map_eq_some_iff.1 hmem with ⟨text', htext, heq⟩
  rcases Prod.mk.inj heq with ⟨rfl, rfl⟩
  exact h.outputs htext hread hname

/-- A compilation gives ids to their owners, and new ones to fields that own them from then on. -/
theorem Owned.compile (h : session.Owned mint owners) :
    ∃ later : Owners, later.Extends owners ∧ Fresh mint later.Taken (session.compile mint).2 ∧
      ∀ compiled, (session.compile mint).1 = .ok compiled →
        compiled.OwnedBy later ∧ compiled.LabelsFields := by
  unfold Session.compile
  cases hread : session.sources.read with
  | error fault => exact ⟨owners, .refl _, h.fresh, nofun⟩
  | ok read =>
      rcases read with ⟨registry, documents⟩
      let history := session.history documents.keys
      have hleft : ∀ key, ∀ id ∈ history.left [] key, owners id = some key :=
        fun key id hid => h.of_mem_history documents.keys_nodup hid
      dsimp only
      cases hresult : SchemaLink.compile (StableIds.allocate mint) registry documents
          (StableIds.start history session.minter) with
      | mk result ids =>
          cases result with
          | error error =>
              obtain ⟨made, -, hstate⟩ := compile_requests (StableIds.allocate mint) registry
                documents (StableIds.start history session.minter)
              obtain ⟨later, hlater, hfresh, -⟩ := StableIds.exists_owners made hleft h.fresh
              rw [hresult] at hstate
              obtain rfl : ids = _ := hstate
              exact ⟨later, hlater, hfresh, nofun⟩
          | ok report =>
              obtain ⟨-, -, -, hstate⟩ := of_compile_ok hresult
              obtain ⟨later, hlater, hfresh, hentries⟩ :=
                StableIds.exists_owners (requests documents.toList) hleft h.fresh
              have hexclusive : (session.history documents.keys).Exclusive := by
                rw [session.history_eq]
                exact History.exclusive_ofOutputs (session.nodup_recalled documents.keys_nodup)
              have hrecord : Fresh mint history.Holds session.minter := by
                refine h.fresh.mono fun id hid => ?_
                rcases hid with ⟨type, name, hid⟩
                exact Option.isSome_iff_exists.2
                  ⟨_, h.of_mem_history documents.keys_nodup hid⟩
              refine ⟨later, hlater, hstate ▸ hfresh, ?_⟩
              rintro _ ⟨⟩
              exact ⟨Compiled.ownedBy_of_compile hresult hentries,
                Compiled.labelsFields_of_compile hresult (nodup_given hexclusive hrecord documents)⟩

/-- Output that is kept is that of the report or was there before. -/
theorem of_find?_keep {report : Report} {indent : Nat} {type : TypeRef} {text : String}
    (h : (session.keep report indent).outputs.find? type = some text) :
    (∃ output, report.documents.find? type = some output ∧ text = output.text indent) ∨
      session.outputs.find? type = some text := by
  rcases SortedMap.mem_or_find?_of_find?_foldl_insert h with hmem | hfound
  · rcases List.mem_map.1 hmem with ⟨⟨type', output⟩, houtput, heq⟩
    rcases Prod.mk.inj heq with ⟨rfl, rfl⟩
    exact .inl ⟨output, SortedMap.find?_eq_some_iff.2 houtput, rfl⟩
  · exact .inr hfound

theorem Owned.keep (h : session.Owned mint owners) {compiled : Compiled}
    (hcompiled : compiled.OwnedBy owners) (indent : Nat) :
    (session.keep compiled.report indent).Owned mint owners where
  fresh := h.fresh
  outputs {type text names id name} htext hread hname := by
    rcases of_find?_keep htext with ⟨output, houtput, rfl⟩ | hold
    · obtain ⟨-, rfl⟩ := CompiledDocument.readOutput_text_eq_ok_iff.1 hread
      obtain ⟨field, hfield, rfl⟩ := Report.exists_field?_of_systemNames houtput hname
      exact hcompiled type id field hfield
    · exact h.outputs hold hread hname

/-- No command takes an id from its owner. -/
theorem Owned.perform (h : session.Owned mint owners) (command : Command) :
    ∃ later : Owners, later.Extends owners ∧ (session.perform mint command).2.Owned mint later ∧
      ∀ compiled, (session.perform mint command).1 = some compiled →
        compiled.OwnedBy later ∧ compiled.LabelsFields := by
  cases command with
  | register kind text => exact ⟨owners, .refl _, ⟨h.fresh, h.outputs⟩, nofun⟩
  | author type text => exact ⟨owners, .refl _, ⟨h.fresh, h.outputs⟩, nofun⟩
  | drop type => exact ⟨owners, .refl _, ⟨h.fresh, h.outputs⟩, nofun⟩
  | compile =>
      obtain ⟨later, hlater, hfresh, -⟩ := h.compile
      exact ⟨later, hlater,
        ⟨hfresh, fun htext hread hname => hlater _ _ (h.outputs htext hread hname)⟩, nofun⟩
  | save indent =>
      obtain ⟨later, hlater, hfresh, hcompiled⟩ := h.compile
      have hkept : ({ session with minter := (session.compile mint).2 } : Session μ).Owned mint
          later := ⟨hfresh, fun htext hread hname => hlater _ _ (h.outputs htext hread hname)⟩
      unfold Session.perform
      cases hresult : session.compile mint with
      | mk result minter =>
          rw [hresult] at hcompiled hkept
          cases result with
          | error error => exact ⟨later, hlater, hkept, nofun⟩
          | ok compiled =>
              obtain ⟨howned, hlabels⟩ := hcompiled compiled rfl
              refine ⟨later, hlater, hkept.keep howned indent, ?_⟩
              rintro _ ⟨⟩
              exact ⟨howned, hlabels⟩

/-- However many commands follow one another, all outputs agree on the owners of ids. -/
theorem Owned.run (h : session.Owned mint owners) (commands : List Command) :
    ∃ later : Owners, later.Extends owners ∧
      (Session.run mint commands session).2.Owned mint later ∧
      ∀ compiled ∈ (Session.run mint commands session).1,
        compiled.OwnedBy later ∧ compiled.LabelsFields := by
  induction commands generalizing session owners with
  | nil => exact ⟨owners, .refl _, h, by simp [Session.run]⟩
  | cons command commands ih =>
      obtain ⟨next, hnext, howned, hsaved⟩ := h.perform command
      obtain ⟨later, hlater, hend, hrest⟩ := ih howned
      refine ⟨later, hlater.trans hnext, hend, ?_⟩
      intro compiled hcompiled
      rcases List.mem_append.1 hcompiled with hfirst | hmem
      · obtain ⟨howned, hlabels⟩ := hsaved compiled (Option.mem_toList.1 hfirst)
        exact ⟨howned.extend hlater, hlabels⟩
      · exact hrest compiled hmem

/-- In a session that starts without output, an id that is saved with a type and a name is never
saved with others, and each output has every declared field under an id of its own. -/
theorem saved_ids_keep_owners {minter : μ} (hminter : ∀ count, (drawn mint count minter).Nodup)
    (sources : Sources) (commands : List Command) :
    let saved := (Session.run mint commands { sources := sources, minter := minter }).1
    (∀ first ∈ saved, ∀ second ∈ saved, ∀ type type' id field field',
      first.report.field? type id = some field → second.report.field? type' id = some field' →
      type' = type ∧ field'.systemName = field.systemName) ∧
    ∀ compiled ∈ saved, compiled.LabelsFields := by
  intro saved
  have hstart : ({ sources := sources, minter := minter } : Session μ).Owned mint
      fun _ => none :=
    { fresh := ⟨hminter, fun _ htaken => by cases htaken⟩
      outputs := fun htext => by cases htext }
  obtain ⟨owners, -, -, hsaved⟩ := hstart.run commands
  constructor
  · intro first hfirst second hsecond type type' id field field' hfield hfield'
    have howner := (hsaved first hfirst).1 type id field hfield
    have howner' := (hsaved second hsecond).1 type' id field' hfield'
    exact Prod.mk.inj (Option.some.inj (howner'.symm.trans howner))
  · intro compiled hcompiled
    exact (hsaved compiled hcompiled).2

/-! ## A book that comes back -/

/-- Commands that save a book, then save without it, and save again with the book and an author. -/
def returningBook : List Command :=
  let titled := "\x7b\"data\":\x7b\"fields\":[\x7b\"system_name\":\"title\"\x7d]\x7d\x7d"
  [.author (.entity "book") titled, .save 2, .drop (.entity "book"), .save 2,
    .author (.entity "author") titled, .author (.entity "book") titled, .save 2]

/-- The title of the book has its id again, and the one of the author, which is compiled first,
has another. -/
theorem saved_ids_of_returningBook :
    let saved := (Session.run lengthening returningBook { minter := 1 }).1
    saved.map (fun compiled => (compiled.report.field? (.entity "book") "n").map
      FieldDeclaration.systemName) = [some "title", none, some "title"] ∧
    (∀ compiled ∈ saved, ∀ type field, compiled.report.field? type "n" = some field →
      type = .entity "book" ∧ field.systemName = "title") ∧
    ∀ compiled ∈ saved, compiled.LabelsFields := by
  intro saved
  have hminter : ∀ count, (drawn lengthening count 1).Nodup :=
    (fresh_lengthening fun _ (htaken : False) => htaken.elim).nodup
  obtain ⟨hkeep, hlabels⟩ := saved_ids_keep_owners hminter {} returningBook
  have htitles : saved.map (fun compiled => (compiled.report.field? (.entity "book") "n").map
      FieldDeclaration.systemName) = [some "title", none, some "title"] := by decide +kernel
  refine ⟨htitles, fun compiled hcompiled type field hfield => ?_, hlabels⟩
  rcases List.map_eq_cons_iff.1 htitles with ⟨first, rest, hsaved, hfirst, -⟩
  rcases Option.map_eq_some_iff.1 hfirst with ⟨title, htitle, hname⟩
  have hmem : first ∈ saved := hsaved ▸ List.mem_cons_self
  rw [← hname]
  exact hkeep first hmem compiled hcompiled _ type "n" title field htitle hfield

end Session

end SchemaLink
