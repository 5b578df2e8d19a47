import SchemaLink.Proofs.Compilation.Redaction
import SchemaLink.Proofs.Compilation.WithoutRelations
import SchemaLink.Proofs.Distinct

/-! # Names that are declared again

Whether a name is declared again is told by the lookup that is built up from the declarations. As
the lookup starts with the synthetic name `id`, a declaration of that name counts as repeated even
where it is the first; apart from that, the advisories tell of exactly the repetitions. -/

namespace SchemaLink

/-! ## Declarations of a type -/

theorem TypeRef.text_inj {type other : TypeRef} : type.text = other.text ↔ type = other := by
  constructor
  · intro h
    rcases type with ⟨kind, name⟩
    rcases other with ⟨kind', name'⟩
    have hkind : kind = kind' := by
      -- The words for the kinds differ in their first letter.
      have hhead := congrArg (fun text => text.toList.head?) h
      simp only [text, String.toList_append] at hhead
      cases kind <;> cases kind' <;> simp [TypeKind.label] at hhead ⊢
    subst hkind
    rw [text, text, String.append_right_inj] at h
    exact congrArg (TypeRef.mk kind) h
  · rintro rfl
    rfl

namespace FieldLookup

theorem isSome_find?_insert (lookup : FieldLookup) (name id other : String) :
    ((lookup.insert name id).find? other).isSome ↔ (lookup.find? other).isSome ∨ other = name := by
  unfold find? insert
  by_cases h : other = name
  · rw [h, SortedMap.find?_insert_self]
    simp
  · rw [SortedMap.find?_insert_of_ne h, or_iff_left h]

theorem isSome_find?_initial (name : String) : (initial.find? name).isSome ↔ name ∈ ["id"] := by
  have hempty : FieldLookup.find? ⟨SortedMap.empty⟩ name = none := rfl
  have hinitial : initial = FieldLookup.insert ⟨SortedMap.empty⟩ "id" "id" := rfl
  rw [hinitial, isSome_find?_insert, hempty, List.mem_singleton]
  exact or_iff_right nofun

end FieldLookup

/-- A lookup that binds what was seen before finds all repetitions from there on. -/
theorem repeats_append_names {lookup : FieldLookup} {seen : List String}
    (h : ∀ name, (lookup.find? name).isSome ↔ name ∈ seen) (declared : List (String × String)) :
    repeats (seen ++ declared.map Prod.fst) = repeats seen ++ repeatedNames lookup declared := by
  induction declared generalizing lookup seen with
  | nil => simp [repeatedNames]
  | cons field declared ih =>
      rcases field with ⟨name, id⟩
      have hinsert : ∀ other, ((lookup.insert name id).find? other).isSome ↔
          other ∈ seen ++ [name] := by
        intro other
        rw [lookup.isSome_find?_insert, h, List.mem_append, List.mem_singleton]
      have hsplit : seen ++ ((name, id) :: declared).map Prod.fst =
          (seen ++ [name]) ++ declared.map Prod.fst := by simp
      rw [hsplit, ih hinsert, repeats_concat, repeatedNames, List.append_assoc]
      by_cases hseen : name ∈ seen
      · simp [hseen, (h name).2 hseen]
      · simp [hseen, mt (h name).1 hseen]

/-- The synthetic name counts as declared before all others. -/
theorem repeatedNames_initial (declared : List (String × String)) :
    repeatedNames .initial declared = repeats ("id" :: declared.map Prod.fst) :=
  (repeats_append_names FieldLookup.isSome_find?_initial declared).symm

theorem duplicates_structured {type : ResolvedType} {given : List String}
    (h : given.length = type.fields.length) (registry : Registry) :
    Advisory.duplicates (type.structured registry given).advisories =
      (repeats ("id" :: type.fields.map FieldDeclaration.systemName)).map
        (.duplicateField type.owner) := by
  unfold ResolvedType.structured
  cases hdata : type.data with
  | none =>
      have hfields : type.fields = [] := by rw [ResolvedType.fields, hdata]
      rw [hfields]
      exact Advisory.duplicates_checkEnds ..
  | some data =>
      have hfields : type.fields = data.fields := by rw [ResolvedType.fields, hdata]
      simp only [Advisory.duplicates_append, Advisory.duplicates_checkEnds, List.nil_append,
        Advisory.duplicates_repeated, repeatedNames_initial, names_of_given (hfields ▸ h), hfields]

/-! ## Advisories of a report -/

/-- A condition that tells which item a result comes from picks the items themselves. -/
theorem filter_flatMap_of_forall {α β : Type*} {f : α → List β} {p : β → Bool} {q : α → Bool}
    (h : ∀ x, ∀ y ∈ f x, p y = q x) (items : List α) :
    (items.flatMap f).filter p = (items.filter q).flatMap f := by
  induction items with
  | nil => rfl
  | cons x items ih =>
      rw [List.flatMap_cons, List.filter_append, ih]
      by_cases hx : q x = true
      · have hall : (f x).filter p = f x :=
          List.filter_eq_self.2 fun y hy => (h x y hy).trans hx
        rw [hall, List.filter_cons_of_pos hx, List.flatMap_cons]
      · have hnone : (f x).filter p = [] :=
          List.filter_eq_nil_iff.2 fun y hy => (h x y hy).symm ▸ hx
        rw [hnone, List.filter_cons_of_neg hx, List.nil_append]

/-- The advisories on repeated names that have the type as their subject. -/
def Report.duplicates (report : Report) (owner : TypeRef) : List Advisory :=
  (Advisory.duplicates report.advisories).filter fun advisory => advisory.subject = owner.text

/-- The later stages tell of no repeated names. -/
theorem duplicates_of_finish {registry : Registry} {types : List StructuredType} {report : Report}
    (h : finish registry types = .ok report) :
    Advisory.duplicates report.advisories =
      types.flatMap fun type => Advisory.duplicates type.advisories := by
  by_cases hrelations : registry.hasRelations
  · rw [finish_of_relations hrelations] at h
    obtain ⟨searches, hsearches, rfl⟩ := exists_of_map_eq_ok h
    have hadvisories := congrArg Report.advisories (unlinked_linkedReport [] hsearches)
    rwa [List.flatMap_map] at hadvisories
  · simp only [finish, hrelations, Bool.false_eq_true, if_false] at h
    cases h
    rw [Advisory.duplicates_append, Advisory.duplicates_missing, List.nil_append]
    exact List.filter_flatMap ..

section Reports

variable {σ : Type} {ids : IdAllocator σ} {registry : Registry} {documents : AuthoredTypes}
  {state state' : σ} {report : Report} {owner : TypeRef} {doc : TypeDocument}

theorem duplicates_of_compile (h : compile ids registry documents state = (.ok report, state')) :
    Advisory.duplicates report.advisories = documents.toList.flatMap fun entry =>
      (repeats ("id" :: entry.2.names)).map (.duplicateField entry.1) := by
  obtain ⟨types, htypes, hfinish, -⟩ := of_compile_ok h
  rw [duplicates_of_finish hfinish, ← owners_of_resolveTypes htypes, structuredTypes,
    List.flatMap_map, List.flatMap_map]
  refine List.flatMap_congr fun type hmem => ?_
  obtain ⟨entry, -, htype⟩ := exists_of_forall₂_right (forall₂_of_resolveTypes htypes) hmem
  rw [duplicates_structured (length_given_of_mem ids state htypes hmem),
    names_of_resolveType htype, (resolveType_eq_ok htype).2.1]

theorem duplicates_of_type (h : compile ids registry documents state = (.ok report, state'))
    (hdoc : documents.find? owner = some doc) :
    report.duplicates owner = (repeats ("id" :: doc.names)).map (.duplicateField owner) := by
  have hsubject : ∀ entry : TypeRef × TypeDocument,
      ∀ advisory ∈ (repeats ("id" :: entry.2.names)).map (Advisory.duplicateField entry.1),
        decide (advisory.subject = owner.text) = decide (entry.1 = owner) := by
    intro entry advisory hmem
    obtain ⟨name, -, rfl⟩ := List.mem_map.1 hmem
    exact decide_eq_decide.2 TypeRef.text_inj
  rw [Report.duplicates, duplicates_of_compile h, filter_flatMap_of_forall hsubject,
    SortedMap.filter_toList, hdoc]
  exact List.append_nil _

/-- A type is told of every declaration whose name is declared further to the front, and of every
declaration of `id`, the first one too. So the advisories tell exactly of the repetitions, there are
as many as there are declarations beyond the first of each name, and a type without repetitions has
none, just if `id` is not declared. -/
theorem repeated_names_reported
    (h : compile ids registry documents state = (.ok report, state'))
    (hdoc : documents.find? owner = some doc) :
    report.duplicates owner = (repeats ("id" :: doc.names)).map (.duplicateField owner) ∧
      (report.duplicates owner = (repeats doc.names).map (.duplicateField owner) ↔
        "id" ∉ doc.names) ∧
      (report.duplicates owner).length + (distinct doc.names).length =
        doc.names.length + (if "id" ∈ doc.names then 1 else 0) ∧
      (report.duplicates owner = [] ↔ "id" ∉ doc.names ∧ doc.names.Nodup) := by
  have hfound := duplicates_of_type h hdoc
  have hlength := length_repeats_cons "id" doc.names
  refine ⟨hfound, ⟨fun hsame hid => ?_, fun hid => ?_⟩, ?_, ?_⟩
  · have hcount := congrArg List.length (hfound.symm.trans hsame)
    rw [List.length_map, List.length_map, hlength, if_pos hid] at hcount
    omega
  · rw [hfound, repeats_cons_of_not_mem hid]
  · have htotal := length_repeats_add_length_distinct doc.names
    rw [hfound, List.length_map, hlength]
    omega
  · rw [hfound, List.map_eq_nil_iff, repeats_eq_nil_iff, List.nodup_cons]

end Reports

/-! ## Works with titles -/

def titledAgain : TypeDocument where
  data := some { fields := [{ systemName := "title" }, { systemName := "note" },
    { systemName := "title" }, { systemName := "title" }] }

def titledOnce : TypeDocument where
  data := some { fields := [{ systemName := "id" }, { systemName := "title" }] }

def titledWorks : AuthoredTypes := .ofList [
  (.entity "article", titledAgain), (.entity "book", titledOnce)]

theorem exists_report_titledWorks : ∃ report state,
    compile (StableIds.allocate lengthening) {} titledWorks (.start .empty 1) =
      (.ok report, state) :=
  exists_report rfl

/-- The second and the third title of articles are told of, among three titles and a note. -/
theorem titles_of_articles_reported : ∃ report state,
    compile (StableIds.allocate lengthening) {} titledWorks (.start .empty 1) =
        (.ok report, state) ∧
      report.duplicates (.entity "article") =
        [.duplicateField (.entity "article") "title",
          .duplicateField (.entity "article") "title"] := by
  obtain ⟨report, state, hreport⟩ := exists_report_titledWorks
  have harticle : titledWorks.find? (.entity "article") = some titledAgain := rfl
  obtain ⟨-, hexact, -, -⟩ := repeated_names_reported hreport harticle
  exact ⟨report, state, hreport, hexact.2 (by decide)⟩

/-- Books declare every name once, and are told that `id` is declared again. -/
theorem id_of_books_reported : ∃ report state,
    compile (StableIds.allocate lengthening) {} titledWorks (.start .empty 1) =
        (.ok report, state) ∧
      titledWorks.find? (.entity "book") = some titledOnce ∧ titledOnce.names.Nodup ∧
      report.duplicates (.entity "book") = [.duplicateField (.entity "book") "id"] ∧
      (repeats titledOnce.names).map (Advisory.duplicateField (.entity "book")) = [] := by
  obtain ⟨report, state, hreport⟩ := exists_report_titledWorks
  have hbook : titledWorks.find? (.entity "book") = some titledOnce := rfl
  exact ⟨report, state, hreport, hbook, by decide, duplicates_of_type hreport hbook, rfl⟩

end SchemaLink
