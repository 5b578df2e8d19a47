import SchemaLink.Proofs.Compilation.Recompilation
import SchemaLink.Proofs.Document.Extras

/-! # Compiling over and over

Output that is compiled over gives every name the ids that it had, the smallest first.
Compiling over that again finds them in this order already, so from the second run on the
report is the same, whatever order the ids had before. -/

namespace SchemaLink

variable {μ : Type} {mint : μ → String × μ} {minter : μ} {registry : Registry}
  {documents : AuthoredTypes} {history : History} {owner : TypeRef} {doc : TypeDocument}
  {indent : Nat} {report second : Report} {state : StableIds μ}

/-! ## A minter for every history -/

theorem exists_length_bound (texts : List String) : ∃ bound, ∀ text ∈ texts, text.length < bound := by
  induction texts with
  | nil => exact ⟨0, by simp⟩
  | cons text texts ih =>
      obtain ⟨bound, hbound⟩ := ih
      refine ⟨max bound (text.length + 1), fun other hother => ?_⟩
      rcases List.mem_cons.1 hother with rfl | hother
      · omega
      · have := hbound other hother
        omega

/-- Some minter gives none of the ids on record. -/
theorem History.exists_fresh (history : History) :
    ∃ length, Fresh lengthening history.Holds length := by
  let held := history.types.values.flatMap fun fields => fields.values.flatten
  obtain ⟨bound, hbound⟩ := exists_length_bound held
  refine ⟨bound, fresh_lengthening fun id hid => hbound id ?_⟩
  rcases hid with ⟨type, name, hid⟩
  unfold History.ids at hid
  cases hfields : history.types.find? type with
  | none => simp [hfields] at hid
  | some fields =>
      cases hids : fields.find? name with
      | none => simp [hfields, hids] at hid
      | some ids =>
          simp only [hfields, hids, Option.bind_some, Option.getD_some] at hid
          have htype := SortedMap.find?_eq_some_iff.1 hfields
          have hname := SortedMap.find?_eq_some_iff.1 hids
          exact List.mem_flatMap.2 ⟨fields, List.mem_map_of_mem htype,
            List.mem_flatten.2 ⟨ids, List.mem_map_of_mem hname, hid⟩⟩

/-! ## Runs that mint nothing -/

/-- Over the output of a report, the documents compile to the next report with the ids on record
alone: no minter is asked for any. -/
def Report.RecompilesTo (registry : Registry) (documents : AuthoredTypes) (report : Report)
    (indent : Nat) (next : Report) : Prop :=
  ∀ (ν : Type) (mint : ν → String × ν) (minter : ν),
    compile (StableIds.allocate mint) registry documents
        (.start (.ofOutputs (report.texts indent)) minter) =
      (.ok next, ⟨.ofOutputs (report.texts indent), (requests documents.toList).reverse, minter⟩)

/-- Where enough ids are on record for all requests, documents that compile come to one report. -/
theorem compile_recorded {recorded : History}
    (hcompile : compile (StableIds.allocate mint) registry documents (.start history minter) =
      (.ok report, state))
    (hcount : ∀ key, (requests documents.toList).count key ≤ (recorded.left [] key).length) :
    ∃ next : Report, ∀ (ν : Type) (mint : ν → String × ν) (minter : ν),
      compile (StableIds.allocate mint) registry documents (.start recorded minter) =
        (.ok next, ⟨recorded, (requests documents.toList).reverse, minter⟩) := by
  obtain ⟨ids, hrun⟩ := StableIds.run_recorded [] hcount
  obtain ⟨types, htypes, hfinish, -⟩ := of_compile_ok hcompile
  obtain ⟨next, -, hnext⟩ := compile_ok_of_resolved htypes hfinish (StableIds.allocate mint)
    (.start recorded minter)
  have hgiven : ∀ (ν : Type) (mint : ν → String × ν) (minter : ν),
      (StableIds.allocate mint).given documents (.start recorded minter) =
        fun owner => givenTo owner (requests documents.toList) ids := by
    intro ν mint minter
    funext owner
    rw [IdAllocator.given, StableIds.start, hrun]
  rw [structuredTypes, hgiven] at hnext
  refine ⟨next, fun ν mint minter => ?_⟩
  rw [compile_of_resolved htypes, structuredTypes, hgiven, hnext, StableIds.start, hrun,
    List.append_nil]

/-- Compiling with the same ids comes to the same report. -/
theorem report_eq_of_given {ν : Type} {mint' : ν → String × ν} {start : StableIds μ}
    {start' state' : StableIds ν}
    (hcompile : compile (StableIds.allocate mint) registry documents start = (.ok report, state))
    (hsecond : compile (StableIds.allocate mint') registry documents start' = (.ok second, state'))
    (hgiven : (StableIds.allocate mint').given documents start' =
      (StableIds.allocate mint).given documents start) : second = report := by
  obtain ⟨types, htypes, hfinish, -⟩ := of_compile_ok hcompile
  rw [compile_of_resolved htypes, structuredTypes, hgiven] at hsecond
  exact Except.ok.inj ((Prod.mk.inj hsecond).1.symm.trans hfinish)

/-! ## Output read again -/

/-- No declared field is named again among its extra keys. -/
def TypeDocument.NamesOnce (doc : TypeDocument) : Prop :=
  ∀ field ∈ doc.declared, field.extra.find? "system_name" = none

theorem TypeDocument.namesOnce_of_parse {text : String} (h : TypeDocument.parse text = .ok doc) :
    doc.NamesOnce := by
  intro field hfield
  unfold declared at hfield
  split at hfield
  · cases hfield
  · next data hdata => exact unmodelled_of_parse h hdata hfield "system_name" (by decide)

/-- Documents that are read from texts have output that is read back. -/
theorem Report.readable_of_parse {σ : Type} {ids : IdAllocator σ} {start state : σ}
    (hcompile : compile ids registry documents start = (.ok report, state))
    (hparse : ∀ owner doc, documents.find? owner = some doc →
      ∃ text, TypeDocument.parse text = .ok doc) (indent : Nat) : report.Readable indent := by
  refine readable_of_compile hcompile (fun owner doc hdoc => ?_) indent
  obtain ⟨text, htext⟩ := hparse owner doc hdoc
  exact TypeDocument.namesOnce_of_parse htext

theorem find?_report_eq_none {σ : Type} {ids : IdAllocator σ} {start state : σ}
    (hcompile : compile ids registry documents start = (.ok report, state))
    (hdoc : documents.find? owner = none) : report.documents.find? owner = none := by
  cases hfound : report.documents.find? owner with
  | none => rfl
  | some compiled =>
      obtain ⟨doc, hsome⟩ := find?_of_find?_report hcompile hfound
      rw [hdoc] at hsome
      cases hsome

/-- All that is declared stands in the output, so no declared field of readable output is named
again among its extra keys. -/
theorem Report.extra_of_readable
    (hcompile : compile (StableIds.allocate mint) registry documents (.start history minter) =
      (.ok report, state))
    (hexclusive : history.Exclusive) (hfresh : Fresh mint history.Holds minter)
    (hread : report.Readable indent) (hdoc : documents.find? owner = some doc)
    {field : FieldDeclaration} (hfield : field ∈ doc.declared) :
    field.extra.find? "system_name" = none := by
  obtain ⟨compiled, hfound, hcompiled⟩ := report_of_compile hcompile hdoc
  have hlength := IdAllocator.length_given (StableIds.allocate mint) (.start history minter) hdoc
  unfold TypeDocument.declared at hfield hlength
  cases hdata : doc.data with
  | none => simp [hdata] at hfield
  | some data =>
      rw [hdata] at hcompiled hfield hlength
      rcases hcompiled with ⟨resolved, hresolved, hfields, -⟩
      obtain ⟨names, hnames⟩ := hread owner compiled hfound
      have honce := (CompiledDocument.readOutput_text_eq_ok_iff.1 hnames).1 _ hfields
      have hsame := ResolvedFields.of_resolve hresolved
      obtain ⟨result, hresult, hresolve⟩ := hsame.exists_resolved_of_mem hfield
      -- The field stands in the output under the id that it was given.
      have hgiven : result ∈ (((StableIds.allocate mint).given documents (.start history minter)
          owner).zip resolved.fields).map Prod.snd := by
        rwa [List.map_snd_zip (Nat.le_of_eq (hsame.length_eq.symm.trans hlength.symm))]
      obtain ⟨entry, hmem, rfl⟩ := List.mem_map.1 hgiven
      have hentry := (DataSection.find?_compiled (nodup_given hexclusive hfresh documents owner)
        (hlength.trans hsame.length_eq)).2 hmem
      have hextra := honce entry.2 (List.mem_map_of_mem (SortedMap.find?_eq_some_iff.1 hentry))
      rwa [FieldDeclaration.eq_of_resolve hresolve] at hextra

/-- Output with the same ids on record for every name has the same name under every id. -/
theorem Report.systemNames_eq_of_ids {indent' : Nat} {compiled compiled' : CompiledDocument}
    (hread : report.Readable indent) (hread' : second.Readable indent')
    (hfound : report.documents.find? owner = some compiled)
    (hfound' : second.documents.find? owner = some compiled')
    (h : ∀ name, (History.ofOutputs (second.texts indent')).ids owner name =
      (History.ofOutputs (report.texts indent)).ids owner name) :
    compiled'.systemNames = compiled.systemNames := by
  apply SortedMap.ext_find?
  intro id
  apply Option.ext
  intro name
  have hname := h name
  rw [History.ids_ofOutputs _ _ (second.nodup_texts indent'),
    History.ids_ofOutputs _ _ (report.nodup_texts indent),
    Report.outputNames_texts hread' hfound', Report.outputNames_texts hread hfound] at hname
  rw [← mem_idsNamed, hname, mem_idsNamed]

/-! ## The fixed point -/

section Again

variable (hexclusive : history.Exclusive) (hfresh : Fresh mint history.Holds minter)
  (hcompile : compile (StableIds.allocate mint) registry documents (.start history minter) =
    (.ok report, state)) (hread : report.Readable indent)

include hexclusive hfresh hcompile hread

theorem exists_recompilesTo : ∃ second, report.RecompilesTo registry documents indent second :=
  compile_recorded hcompile (count_requests_le_again hexclusive hfresh hcompile hread)

theorem readable_again (hsecond : report.RecompilesTo registry documents indent second)
    (indent' : Nat) : second.Readable indent' :=
  Report.readable_of_compile (hsecond μ mint minter)
    (fun _ _ hdoc _ hfield =>
      Report.extra_of_readable hcompile hexclusive hfresh hread hdoc hfield) indent'

/-- The output of the second run leaves the same ids on record as that of the first. -/
theorem ids_ofOutputs_again (hsecond : report.RecompilesTo registry documents indent second)
    (indent' : Nat) (hdoc : documents.find? owner = some doc) (name : String) :
    (History.ofOutputs (second.texts indent')).ids owner name =
      (History.ofOutputs (report.texts indent)).ids owner name := by
  obtain ⟨length, hfresh'⟩ := (History.ofOutputs (report.texts indent)).exists_fresh
  have hexclusive' := History.exclusive_ofOutputs (report.nodup_texts indent)
  have hread' := readable_again hexclusive hfresh hcompile hread hsecond indent'
  have hperm := ids_again_perm hexclusive' hfresh' (hsecond Nat lengthening length) hread' hdoc name
  rw [idsOfName_again hexclusive hfresh hcompile hread lengthening length hdoc] at hperm
  exact SortedMap.eq_of_perm_of_ascending (ids_again_ascending second indent' owner name)
    (ids_again_ascending report indent owner name) hperm

/-- The second run over output already gives the ids of every name in ascending order, so a third
one changes nothing. -/
theorem recompilesTo_self (hsecond : report.RecompilesTo registry documents indent second)
    (indent' : Nat) : second.RecompilesTo registry documents indent' second := by
  obtain ⟨length, hfresh'⟩ := (History.ofOutputs (report.texts indent)).exists_fresh
  have hexclusive' := History.exclusive_ofOutputs (report.nodup_texts indent)
  have hread' := readable_again hexclusive hfresh hcompile hread hsecond indent'
  have hcompile' := hsecond Nat lengthening length
  obtain ⟨third, hthird⟩ := exists_recompilesTo hexclusive' hfresh' hcompile' hread'
  have hgiven : (StableIds.allocate lengthening).given documents
      (.start (.ofOutputs (second.texts indent')) length) =
        (StableIds.allocate lengthening).given documents
          (.start (.ofOutputs (report.texts indent)) length) := by
    have hlength := IdAllocator.length_run (StableIds.allocate lengthening)
      (requests documents.toList) (.start (.ofOutputs (second.texts indent')) length)
    have hids := ids_again_eq hexclusive' hfresh' hcompile' hread' hlength
      (fun owner doc hdoc name =>
        idsOfName_again hexclusive' hfresh' hcompile' hread' lengthening length hdoc name)
      (fun owner doc hdoc name => by
        rw [idsOfName_again hexclusive hfresh hcompile hread lengthening length hdoc]
        exact ids_again_ascending report indent owner name)
    funext owner
    rw [IdAllocator.given, hids]
    rfl
  rwa [report_eq_of_given hcompile' (hthird Nat lengthening length) hgiven] at hthird

end Again

variable {outputs : List (TypeRef × String)}

/-- Whatever ids the declarations of a name were given, compiling the documents over their own
output and then over that again comes to the same report, which has every name under the ids that
it had at first. Neither run mints an id. Documents that are read from texts have output that is
readable, `Report.readable_of_parse`. -/
theorem recompile_reaches_fixed_point (houtputs : (outputs.map Prod.fst).Nodup)
    (hfresh : Fresh mint (History.ofOutputs outputs).Holds minter)
    (hcompile : compile (StableIds.allocate mint) registry documents
      (.start (History.ofOutputs outputs) minter) = (.ok report, state))
    (hread : report.Readable indent) (indent' : Nat) :
    ∃ second, report.RecompilesTo registry documents indent second ∧ second.Readable indent' ∧
      second.RecompilesTo registry documents indent' second ∧
      ∀ owner, (second.documents.find? owner).map CompiledDocument.systemNames =
        (report.documents.find? owner).map CompiledDocument.systemNames := by
  have hexclusive := History.exclusive_ofOutputs houtputs
  obtain ⟨second, hsecond⟩ := exists_recompilesTo hexclusive hfresh hcompile hread
  have hread' := readable_again hexclusive hfresh hcompile hread hsecond indent'
  refine ⟨second, hsecond, hread', recompilesTo_self hexclusive hfresh hcompile hread hsecond
    indent', fun owner => ?_⟩
  cases hdoc : documents.find? owner with
  | none =>
      rw [find?_report_eq_none hcompile hdoc, find?_report_eq_none (hsecond μ mint minter) hdoc]
  | some doc =>
      obtain ⟨compiled, hfound, -⟩ := report_of_compile hcompile hdoc
      obtain ⟨compiled', hfound', -⟩ := report_of_compile (hsecond μ mint minter) hdoc
      rw [hfound, hfound', Option.map_some, Option.map_some,
        Report.systemNames_eq_of_ids hread hread' hfound hfound'
          (ids_ofOutputs_again hexclusive hfresh hcompile hread hsecond indent' hdoc)]

theorem twiceTitled_reaches_fixed_point : ∃ report state second,
    compile (StableIds.allocate lengthening) {} twiceTitled (.start titleOnRecord 2) =
        (.ok report, state) ∧
      report.RecompilesTo {} twiceTitled 2 second ∧ second.RecompilesTo {} twiceTitled 4 second := by
  rcases exists_report_twiceTitled with ⟨report, state, hreport⟩
  obtain ⟨second, hsecond, -, hthird, -⟩ := recompile_reaches_fixed_point (by simp)
    fresh_titleOnRecord hreport (readable_twiceTitled hreport) 4
  exact ⟨report, state, second, hreport, hsecond, hthird⟩

end SchemaLink
