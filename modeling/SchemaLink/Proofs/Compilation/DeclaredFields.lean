import SchemaLink.Proofs.Compilation.Frame
import SchemaLink.Proofs.Compilation.Recompilation

/-! # Declared fields in the output

Fields stand under their ids, so one that shares its id with another would be lost. Stable ids
keep the declarations of a type apart, those of one name as well: all of them are in the output. -/

namespace SchemaLink

/-- Every declaration has a field of its own, under the id that it was given, and no other field is
there. -/
structure DataSection.KeptIn (registry : Registry) (given : List String) (data : DataSection)
    (compiled : CompiledData) : Prop where
  distinct : given.Nodup
  size : compiled.fields.size = data.fields.length
  fields : List.Forall₂ (fun declared id => ∃ field, compiled.fields.find? id = some field ∧
    declared.Relinked registry field) data.fields given

/-- Ids that differ keep all declarations of a data section. -/
theorem DataSection.keptIn_compiled {registry : Registry} {data resolved : DataSection}
    {given : List String} (h : data.resolve registry = .ok resolved) (hnodup : given.Nodup)
    (hlength : given.length = data.fields.length) :
    data.KeptIn registry given (resolved.compiled given) := by
  have hfields := ResolvedFields.of_resolve h
  have hresolved : given.length = resolved.fields.length := hlength.trans hfields.length_eq
  refine ⟨hnodup, ?_, forall₂_of_zip hfields hresolved fun id field declared hmem hdeclared => ?_⟩
  · have hsize := (toList_compiled_perm hnodup hresolved).length_eq
    rw [List.length_zip, ← hresolved, Nat.min_self] at hsize
    exact hsize.trans hlength
  · exact ⟨field, (find?_compiled hnodup hresolved).2 hmem,
      FieldDeclaration.relinked_of_resolve hdeclared⟩

section Stable

variable {μ : Type} {mint : μ → String × μ} {minter : μ} {registry : Registry}
  {documents : AuthoredTypes} {outputs : List (TypeRef × String)} {report : Report}
  {state : StableIds μ}

/-- Where ids are recorded from one output of a type at most and the minter is fresh, no two
declarations of a type share an id. So the output has exactly one field for each of them, with what
it declares and with its groups resolved. -/
theorem no_declared_field_lost (houtputs : (outputs.map Prod.fst).Nodup)
    (hfresh : Fresh mint (History.ofOutputs outputs).Holds minter)
    (hcompile : compile (StableIds.allocate mint) registry documents
      (.start (History.ofOutputs outputs) minter) = (.ok report, state)) :
    let given :=
      (StableIds.allocate mint).given documents (.start (History.ofOutputs outputs) minter)
    ∀ owner doc, documents.find? owner = some doc →
      ∃ compiled, report.documents.find? owner = some compiled ∧
        Option.Rel (DataSection.KeptIn registry (given owner)) doc.data compiled.data := by
  intro given owner doc hdoc
  have hnodup : (given owner).Nodup :=
    nodup_given (History.exclusive_ofOutputs houtputs) hfresh documents owner
  have hlength : (given owner).length = doc.declared.length := IdAllocator.length_given _ _ hdoc
  obtain ⟨compiled, hfound, hcompiled⟩ := report_of_compile hcompile hdoc
  refine ⟨compiled, hfound, ?_⟩
  unfold TypeDocument.declared at hlength
  cases hdata : doc.data with
  | none =>
      rw [hdata] at hcompiled
      rw [hcompiled.1]
      exact .none
  | some data =>
      rw [hdata] at hcompiled hlength
      obtain ⟨resolved, hresolved, hsection, -⟩ := hcompiled
      rw [hsection]
      exact .some (DataSection.keptIn_compiled hresolved hnodup hlength)

/-- Of two titles, one gets the id on record and the other a new one, and both are in the output. -/
theorem both_titles_kept : ∃ report state compiled data,
    compile (StableIds.allocate lengthening) {} twiceTitled (.start titleOnRecord 2) =
      (.ok report, state) ∧
    report.documents.find? (.entity "book") = some compiled ∧ compiled.data = some data ∧
    data.fields.size = 2 ∧
    (data.fields.find? "z").map FieldDeclaration.valueType = some (some "String") ∧
    (data.fields.find? "nn").map FieldDeclaration.valueType = some (some "Text") := by
  obtain ⟨report, state, hreport⟩ := exists_report_twiceTitled
  have hdoc : twiceTitled.find? (.entity "book") = some secondTitle := rfl
  have hgiven : (StableIds.allocate lengthening).given twiceTitled (.start titleOnRecord 2)
      (.entity "book") = ["z", "nn"] := by
    rw [titleOnRecord_eq]
    rfl
  obtain ⟨compiled, hfound, hkept⟩ :=
    no_declared_field_lost (by simp) fresh_titleOnRecord hreport _ _ hdoc
  have hsections : Option.Rel (DataSection.KeptIn {} ["z", "nn"]) secondTitle.data compiled.data :=
    hgiven ▸ hkept
  rw [secondTitle] at hsections
  generalize hdata : compiled.data = found at hsections
  cases hsections with
  | @some _ data hsection =>
      obtain ⟨⟨first, hfirst, hstring⟩, hrest⟩ := List.forall₂_cons.1 hsection.fields
      obtain ⟨⟨second, hsecond, htext⟩, -⟩ := List.forall₂_cons.1 hrest
      refine ⟨report, state, compiled, data, hreport, hfound, hdata, hsection.size, ?_, ?_⟩
      · rw [hfirst, hstring.eq, Option.map_some]
      · rw [hsecond, htext.eq, Option.map_some]

end Stable

end SchemaLink
