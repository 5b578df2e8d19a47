import SchemaLink.Proofs.Compilation.Retention

/-! # Compiling the same input again

When the output of a compilation is recorded and the same documents are compiled again,
nothing is minted, and the declarations of a name are given the same ids as before, the
smallest first. So everything stays as it was just if the ids of every name ascended
already. -/

namespace SchemaLink

variable {μ : Type} {mint : μ → String × μ} {minter : μ} {registry : Registry}
  {documents : AuthoredTypes} {outputs : List (TypeRef × String)} {history : History}
  {owner : TypeRef} {doc : TypeDocument} {indent : Nat} {report : Report} {state : StableIds μ}

/-! ## Output on record -/

/-- The texts of all documents of a report, by type. -/
def Report.texts (report : Report) (indent : Nat) : List (TypeRef × String) :=
  report.documents.toList.map fun entry => (entry.1, entry.2.text indent)

/-- The text of every document of a report can be read back. -/
def Report.Readable (report : Report) (indent : Nat) : Prop :=
  ∀ owner compiled, report.documents.find? owner = some compiled →
    ∃ names, History.readOutput (compiled.text indent) = .ok names

theorem Report.nodup_texts (report : Report) (indent : Nat) :
    ((report.texts indent).map Prod.fst).Nodup := by
  have hkeys := report.documents.keys_nodup
  rwa [texts, List.map_map]

theorem Report.outputNames_texts {compiled : CompiledDocument} (hread : report.Readable indent)
    (h : report.documents.find? owner = some compiled) :
    History.outputNames (report.texts indent) owner = compiled.systemNames := by
  have hlookup : (report.texts indent).lookup owner = some (compiled.text indent) := by
    have hlist := SortedMap.lookup_map_toList report.documents
      (fun compiled => compiled.text indent) owner
    rwa [h] at hlist
  obtain ⟨names, hnames⟩ := hread owner compiled h
  rcases CompiledDocument.readOutput_text_eq_ok_iff.1 hnames with ⟨-, rfl⟩
  rw [History.outputNames, hlookup, Option.bind_some, hnames]
  rfl

theorem History.ofOutputs_text {compiled : CompiledDocument} (h : compiled.NamesOnce)
    (owner : TypeRef) (indent : Nat) :
    ofOutputs [(owner, compiled.text indent)] = empty.absorb owner compiled.systemNames := by
  rw [ofOutputs, List.foldl_cons, recordText_eq,
    CompiledDocument.readOutput_text_eq_ok_iff.2 ⟨h, rfl⟩]
  rfl

/-- Output is readable if no declared field is named again among its extra keys. -/
theorem Report.readable_of_compile {σ : Type} {ids : IdAllocator σ} {start state : σ}
    (hcompile : compile ids registry documents start = (.ok report, state))
    (hextra : ∀ owner doc, documents.find? owner = some doc → ∀ field ∈ doc.declared,
      field.extra.find? "system_name" = none) (indent : Nat) : report.Readable indent := by
  intro owner compiled hfound
  obtain ⟨doc, hdoc, hcompiled⟩ := data_of_find?_report hcompile hfound
  refine ⟨_, CompiledDocument.readOutput_text_eq_ok_iff.2 ⟨?_, rfl⟩⟩
  intro compiledData hsome field hfield
  cases hdata : doc.data with
  | none =>
      rw [hdata] at hcompiled
      rw [hcompiled] at hsome
      cases hsome
  | some data =>
      rw [hdata] at hcompiled
      rcases hcompiled with ⟨resolved, hresolved, hfields⟩
      rw [hfields] at hsome
      cases hsome
      rcases List.mem_map.1 hfield with ⟨entry, hentry, rfl⟩
      have hmem : entry.2 ∈ resolved.fields :=
        (List.of_mem_zip (SortedMap.mem_of_mem_ofList hentry)).2
      obtain ⟨declared, hdeclared, hresolve⟩ :=
        (ResolvedFields.of_resolve hresolved).exists_of_mem hmem
      rw [FieldDeclaration.eq_of_resolve hresolve]
      exact hextra owner doc hdoc declared (by simpa [TypeDocument.declared, hdata] using hdeclared)

section OnRecord

variable {σ : Type} {ids : IdAllocator σ} {start after : σ}
  (hcompile : compile ids registry documents start = (.ok report, after))
  (hread : report.Readable indent) (hdoc : documents.find? owner = some doc)
  (hnodup : (ids.given documents start owner).Nodup)

include hcompile hread hdoc hnodup

/-- Where the ids of a type differ, the output has of every name those that its declarations were
given. -/
theorem ids_ofOutputs_perm (name : String) :
    ((History.ofOutputs (report.texts indent)).ids owner name).Perm
      (idsOfName name doc.declared (ids.given documents start owner)) := by
  obtain ⟨compiled, hfound, hcompiled⟩ := report_of_compile hcompile hdoc
  rw [History.ids_ofOutputs _ _ (report.nodup_texts indent), Report.outputNames_texts hread hfound]
  have hlength := ids.length_given start hdoc
  cases hdata : doc.data with
  | none =>
      rw [hdata] at hcompiled
      simp [CompiledDocument.systemNames, hcompiled.1, TypeDocument.declared, hdata, idsOfName]
  | some data =>
      rw [hdata] at hcompiled
      rcases hcompiled with ⟨resolved, hresolved, hfields, -⟩
      have hnames := (ResolvedFields.of_resolve hresolved).systemNames_eq
      have hsame : resolved.fields.length = data.fields.length := by
        simpa using congrArg List.length hnames
      have hdeclared : doc.declared = data.fields := by simp [TypeDocument.declared, hdata]
      rw [hdeclared, ← hsame] at hlength
      rw [CompiledDocument.systemNames, hfields, hdeclared,
        ← idsOfName_eq_of_systemNames name hnames]
      exact DataSection.idsNamed_perm hnodup hlength name

theorem length_ids_ofOutputs (name : String) :
    ((History.ofOutputs (report.texts indent)).ids owner name).length =
      doc.declared.countP fun field => field.systemName = name :=
  (ids_ofOutputs_perm hcompile hread hdoc hnodup name).length_eq.trans
    (length_idsOfName (ids.length_given start hdoc) name)

/-- Over the output, the declarations of a name are given all ids on record for it. -/
theorem idsOfName_ofOutputs {ν : Type} (mint' : ν → String × ν) (minter' : ν) (name : String) :
    idsOfName name doc.declared ((StableIds.allocate mint').given documents
        (.start (History.ofOutputs (report.texts indent)) minter') owner) =
      (History.ofOutputs (report.texts indent)).ids owner name := by
  obtain ⟨-, minted, -, hminted, hgiven⟩ := idsOfName_stable mint'
    (History.ofOutputs (report.texts indent)) minter' hdoc name
  have hlength := length_ids_ofOutputs hcompile hread hdoc hnodup name
  have hnone : minted = [] := List.eq_nil_of_length_eq_zero (by omega)
  rw [hgiven, hnone, List.append_nil, ← hlength, List.take_length]

end OnRecord

theorem ids_again_perm (hexclusive : history.Exclusive) (hfresh : Fresh mint history.Holds minter)
    (hcompile : compile (StableIds.allocate mint) registry documents (.start history minter) =
      (.ok report, state))
    (hread : report.Readable indent) (hdoc : documents.find? owner = some doc) (name : String) :
    ((History.ofOutputs (report.texts indent)).ids owner name).Perm
      (idsOfName name doc.declared
        ((StableIds.allocate mint).given documents (.start history minter) owner)) :=
  ids_ofOutputs_perm hcompile hread hdoc (nodup_given hexclusive hfresh documents owner) name

theorem ids_again_ascending (report : Report) (indent : Nat) (owner : TypeRef) (name : String) :
    ((History.ofOutputs (report.texts indent)).ids owner name).Pairwise
      fun a b => compare a b = .lt := by
  rw [History.ids_ofOutputs _ _ (report.nodup_texts indent)]
  exact idsNamed_ascending _ _

/-! ## The second run -/

/-- No id is requested for a type without a document. -/
theorem count_requests_of_find?_none (h : documents.find? owner = none) (name : String) :
    (requests documents.toList).count (owner, name) = 0 := by
  refine count_requests_of_not_mem (fun hmem => ?_) name
  have hsome := SortedMap.find?_isSome_iff.2 hmem
  rw [h] at hsome
  cases hsome

/-- Ids given to all requests are determined by what each name of each type gets. -/
theorem eq_of_given {ids ids' : List String} (h : ids.length = (requests documents.toList).length)
    (h' : ids'.length = (requests documents.toList).length)
    (hsame : ∀ owner doc, documents.find? owner = some doc → ∀ name,
      idsOfName name doc.declared (givenTo owner (requests documents.toList) ids) =
        idsOfName name doc.declared (givenTo owner (requests documents.toList) ids')) :
    ids = ids' := by
  apply eq_of_idsFor h h'
  intro key
  rcases key with ⟨owner, name⟩
  cases hdoc : documents.find? owner with
  | none =>
      have hcount := count_requests_of_find?_none hdoc name
      rw [List.eq_nil_of_length_eq_zero ((length_idsFor h).trans hcount),
        List.eq_nil_of_length_eq_zero ((length_idsFor h').trans hcount)]
  | some doc =>
      have hmem := SortedMap.find?_eq_some_iff.1 hdoc
      rw [← idsOfName_givenTo hmem documents.keys_nodup h,
        ← idsOfName_givenTo hmem documents.keys_nodup h']
      exact hsame owner doc hdoc name

section SecondRun

variable (hexclusive : history.Exclusive) (hfresh : Fresh mint history.Holds minter)
  (hcompile : compile (StableIds.allocate mint) registry documents (.start history minter) =
    (.ok report, state)) (hread : report.Readable indent)

include hexclusive hfresh hcompile hread

theorem length_ids_again (hdoc : documents.find? owner = some doc) (name : String) :
    ((History.ofOutputs (report.texts indent)).ids owner name).length =
      doc.declared.countP fun field => field.systemName = name :=
  length_ids_ofOutputs hcompile hread hdoc (nodup_given hexclusive hfresh documents owner) name

/-- As many ids are on record as there are requests for them. -/
theorem count_requests_le_again (key : TypeRef × String) :
    (requests documents.toList).count key ≤
      ((History.ofOutputs (report.texts indent)).left [] key).length := by
  rcases key with ⟨owner, name⟩
  cases hdoc : documents.find? owner with
  | none =>
      rw [count_requests_of_find?_none hdoc]
      exact Nat.zero_le _
  | some doc =>
      rw [count_requests (SortedMap.find?_eq_some_iff.1 hdoc) documents.keys_nodup,
        History.left_nil, length_ids_again hexclusive hfresh hcompile hread hdoc]

theorem idsOfName_again {ν : Type} (mint' : ν → String × ν) (minter' : ν)
    (hdoc : documents.find? owner = some doc) (name : String) :
    idsOfName name doc.declared ((StableIds.allocate mint').given documents
        (.start (History.ofOutputs (report.texts indent)) minter') owner) =
      (History.ofOutputs (report.texts indent)).ids owner name :=
  idsOfName_ofOutputs hcompile hread hdoc (nodup_given hexclusive hfresh documents owner) mint'
    minter' name

/-- If the ids of every name ascended before, all requests get what they got before. -/
theorem ids_again_eq {ids : List String} (hids : ids.length = (requests documents.toList).length)
    (hnames : ∀ owner doc, documents.find? owner = some doc → ∀ name,
      idsOfName name doc.declared (givenTo owner (requests documents.toList) ids) =
        (History.ofOutputs (report.texts indent)).ids owner name)
    (h : ∀ owner doc, documents.find? owner = some doc → ∀ name,
      (idsOfName name doc.declared ((StableIds.allocate mint).given documents
        (.start history minter) owner)).Pairwise fun a b => compare a b = .lt) :
    ids = ((StableIds.allocate mint).run (requests documents.toList) (.start history minter)).1 := by
  apply eq_of_given hids (IdAllocator.length_run _ _ _)
  intro owner doc hdoc name
  rw [hnames owner doc hdoc name]
  have hperm := ids_again_perm hexclusive hfresh hcompile hread hdoc name
  have hagain := ids_again_ascending report indent owner name
  exact SortedMap.eq_of_perm_of_ascending hagain (h owner doc hdoc name) hperm

end SecondRun

/-! ## Two titles -/

/-- Output of a type with one title. -/
def oneTitle : CompiledDocument where
  data := some { fields := .ofList [("z", { systemName := "title" })] }

/-- The type after it was given a second title. -/
def secondTitle : TypeDocument where
  data := some { fields := [
    { systemName := "title", valueType := some "String" },
    { systemName := "title", valueType := some "Text" }] }

def twiceTitled : AuthoredTypes := .ofList [(.entity "book", secondTitle)]

def titleOnRecord : History := .ofOutputs [(.entity "book", oneTitle.text 2)]

theorem titleOnRecord_eq : titleOnRecord = History.empty.insert (.entity "book") "title" "z" := by
  refine History.ofOutputs_text ?_ (.entity "book") 2
  rintro _ ⟨⟩ field hfield
  have hfields : field ∈ List.replicate 1 ({ systemName := "title" } : FieldDeclaration) := hfield
  rw [List.eq_of_mem_replicate hfields]
  rfl

theorem fresh_titleOnRecord : Fresh lengthening titleOnRecord.Holds 2 := by
  apply fresh_lengthening
  intro id hid
  rw [titleOnRecord_eq] at hid
  rcases hid.of_insert with hid | rfl
  · exact absurd hid (History.not_holds_empty id)
  · decide

theorem exists_report_twiceTitled : ∃ report state,
    compile (StableIds.allocate lengthening) {} twiceTitled (.start titleOnRecord 2) =
      (.ok report, state) := by
  refine exists_report ?_
  rw [titleOnRecord_eq]
  rfl

theorem secondTitle_extra {field : FieldDeclaration} (h : field ∈ secondTitle.declared) :
    field.extra.find? "system_name" = none := by
  rcases List.mem_cons.1 h with rfl | h
  · rfl
  · rw [List.mem_singleton.1 h]
    rfl

theorem readable_twiceTitled {report : Report} {state : StableIds Nat}
    (h : compile (StableIds.allocate lengthening) {} twiceTitled (.start titleOnRecord 2) =
      (.ok report, state)) : report.Readable 2 := by
  refine Report.readable_of_compile h (fun owner doc hdoc field hfield => ?_) 2
  obtain ⟨-, rfl⟩ := SortedMap.eq_of_find?_singleton hdoc
  exact secondTitle_extra hfield

/-! ## The second run as a whole -/

/-- Compiling the same documents over their own output mints nothing. The declarations of a name
get the ids that they had, in ascending order; so each keeps its own just if they ascended before,
and then the report is the same. -/
theorem recompile_eq_iff_ascending (houtputs : (outputs.map Prod.fst).Nodup)
    (hfresh : Fresh mint (History.ofOutputs outputs).Holds minter)
    (hcompile : compile (StableIds.allocate mint) registry documents
      (.start (History.ofOutputs outputs) minter) = (.ok report, state))
    (hread : report.Readable indent) :
    let again := History.ofOutputs (report.texts indent)
    let given :=
      (StableIds.allocate mint).given documents (.start (History.ofOutputs outputs) minter)
    let ascending := ∀ owner doc, documents.find? owner = some doc → ∀ name,
      (idsOfName name doc.declared (given owner)).Pairwise fun a b => compare a b = .lt
    ∃ (report' : Report) (given' : TypeRef → List String),
      (∀ (ν : Type) (mint' : ν → String × ν) (minter' : ν),
        compile (StableIds.allocate mint') registry documents (.start again minter') =
          (.ok report', ⟨again, (requests documents.toList).reverse, minter'⟩) ∧
        (StableIds.allocate mint').given documents (.start again minter') = given') ∧
      (∀ owner doc, documents.find? owner = some doc → ∀ name,
        (idsOfName name doc.declared (given' owner)).Perm
            (idsOfName name doc.declared (given owner)) ∧
          (idsOfName name doc.declared (given' owner)).Pairwise fun a b => compare a b = .lt) ∧
      (given' = given ∧ report'.documents = report.documents ∧ report'.symbols = report.symbols ↔
        ascending) ∧
      (ascending → report' = report) := by
  intro again given ascending
  have hexclusive := History.exclusive_ofOutputs houtputs
  obtain ⟨ids, hrun⟩ := StableIds.run_recorded []
    (count_requests_le_again hexclusive hfresh hcompile hread)
  let given' : TypeRef → List String := fun owner => givenTo owner (requests documents.toList) ids
  have hgiven : ∀ (ν : Type) (mint' : ν → String × ν) (minter' : ν),
      (StableIds.allocate mint').given documents (.start again minter') = given' := by
    intro ν mint' minter'
    funext owner
    rw [IdAllocator.given, StableIds.start, hrun]
  have hnames : ∀ owner doc, documents.find? owner = some doc → ∀ name,
      idsOfName name doc.declared (given' owner) = again.ids owner name := by
    intro owner doc hdoc name
    rw [← hgiven μ mint minter]
    exact idsOfName_again hexclusive hfresh hcompile hread mint minter hdoc name
  obtain ⟨types, htypes, hfinish, -⟩ := of_compile_ok hcompile
  obtain ⟨report', -, hfinish'⟩ := compile_ok_of_resolved htypes hfinish (StableIds.allocate mint)
    (.start again minter)
  rw [structuredTypes, hgiven] at hfinish'
  have hperm : ∀ owner doc, documents.find? owner = some doc → ∀ name,
      (idsOfName name doc.declared (given' owner)).Perm
        (idsOfName name doc.declared (given owner)) := by
    intro owner doc hdoc name
    rw [hnames owner doc hdoc name]
    exact ids_again_perm hexclusive hfresh hcompile hread hdoc name
  have hascending : ∀ owner doc, documents.find? owner = some doc → ∀ name,
      (idsOfName name doc.declared (given' owner)).Pairwise fun a b => compare a b = .lt := by
    intro owner doc hdoc name
    rw [hnames owner doc hdoc name]
    exact ids_again_ascending report indent owner name
  have hids : ids.length = (requests documents.toList).length := by
    have hlength := (StableIds.allocate mint).length_run (requests documents.toList)
      (.start again minter)
    rwa [StableIds.start, hrun] at hlength
  have hsame : ascending → given' = given := by
    intro h
    have hsameIds := ids_again_eq hexclusive hfresh hcompile hread hids hnames h
    funext owner
    rw [show given owner = givenTo owner (requests documents.toList) _ from rfl, ← hsameIds]
  have hreport : given' = given → report' = report := by
    intro h
    rw [h] at hfinish'
    exact Except.ok.inj (hfinish'.symm.trans hfinish)
  refine ⟨report', given', fun ν mint' minter' => ⟨?_, hgiven ν mint' minter'⟩,
    fun owner doc hdoc name => ⟨hperm owner doc hdoc name, hascending owner doc hdoc name⟩,
    ⟨?_, fun h => ?_⟩, fun h => hreport (hsame h)⟩
  · rw [compile_of_resolved htypes, structuredTypes, hgiven ν mint' minter', hfinish',
      StableIds.start, hrun, List.append_nil]
  · rintro ⟨hgivens, -, -⟩ owner doc hdoc name
    rw [← hgivens]
    exact hascending owner doc hdoc name
  · rw [hreport (hsame h)]
    exact ⟨hsame h, rfl, rfl⟩

theorem recompile_twiceTitled : ∃ report state,
    compile (StableIds.allocate lengthening) {} twiceTitled (.start titleOnRecord 2) =
      (.ok report, state) ∧
    ∃ report', ∀ minter', compile (StableIds.allocate lengthening) {} twiceTitled
        (.start (.ofOutputs (report.texts 2)) minter') =
      (.ok report',
        ⟨.ofOutputs (report.texts 2), (requests twiceTitled.toList).reverse, minter'⟩) := by
  rcases exists_report_twiceTitled with ⟨report, state, hreport⟩
  obtain ⟨report', given', hsecond, -⟩ := recompile_eq_iff_ascending (by simp)
    fresh_titleOnRecord hreport (readable_twiceTitled hreport)
  exact ⟨report, state, hreport, report', fun minter' => (hsecond Nat lengthening minter').1⟩

/-- The two titles exchange their ids: the first one had the greater id, and gets the smaller. -/
theorem recompile_exchanges_titles : ∃ report state,
    compile (StableIds.allocate lengthening) {} twiceTitled (.start titleOnRecord 2) =
      (.ok report, state) ∧ report.Readable 2 ∧
    idsOfName "title" secondTitle.declared ((StableIds.allocate lengthening).given twiceTitled
        (.start titleOnRecord 2) (.entity "book")) = ["z", "nn"] ∧
    idsOfName "title" secondTitle.declared ((StableIds.allocate lengthening).given twiceTitled
        (.start (.ofOutputs (report.texts 2)) 3) (.entity "book")) = ["nn", "z"] := by
  rcases exists_report_twiceTitled with ⟨report, state, hreport⟩
  have hread := readable_twiceTitled hreport
  have hexclusive : titleOnRecord.Exclusive := History.exclusive_ofOutputs (by simp)
  have hdoc : twiceTitled.find? (.entity "book") = some secondTitle := rfl
  have hfirst : idsOfName "title" secondTitle.declared ((StableIds.allocate lengthening).given
      twiceTitled (.start titleOnRecord 2) (.entity "book")) = ["z", "nn"] := by
    rw [titleOnRecord_eq]
    rfl
  have hperm := ids_again_perm hexclusive fresh_titleOnRecord hreport hread hdoc "title"
  rw [hfirst] at hperm
  have hascending : ["nn", "z"].Pairwise fun a b => compare a b = .lt := by decide
  refine ⟨report, state, hreport, hread, hfirst, ?_⟩
  rw [idsOfName_again hexclusive fresh_titleOnRecord hreport hread lengthening 3 hdoc]
  exact SortedMap.eq_of_perm_of_ascending (ids_again_ascending report 2 _ _) hascending
    (hperm.trans (List.Perm.swap _ _ _))

end SchemaLink
