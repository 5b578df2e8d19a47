import SchemaLink.Proofs.Compilation.FixedPoint
import SchemaLink.Proofs.Compilation.Frame

/-! # Compiling before relations are known

Without the table of relations the sections that need it are left out, and nothing is said about
the ends of relations. All else is as it would be with them, the ids above all; so these can be
found again in the output once the table is there. -/

namespace SchemaLink

/-! ## The same groups -/

/-- A registry whose table of relations was not supplied. -/
def Registry.withoutRelations (registry : Registry) : Registry :=
  { registry with relations := none }

theorem resolveTypes_withoutRelations (registry : Registry) (docs : List (TypeRef × TypeDocument)) :
    resolveTypes registry.withoutRelations docs = resolveTypes registry docs := by
  induction docs with
  | nil => rfl
  | cons entry docs ih =>
      have hfirst : resolveType registry.withoutRelations entry.1 entry.2 =
          resolveType registry entry.1 entry.2 := rfl
      rw [resolveTypes, resolveTypes, hfirst, ih]

theorem checkEnds_withoutRelations (registry : Registry) (owner : TypeRef) (doc : TypeDocument) :
    checkEnds registry.withoutRelations owner doc = [] := by
  have hrelations : registry.withoutRelations.hasRelations = false := rfl
  simp [checkEnds, hrelations]

/-! ## Repeated names -/

/-- The advisories on names that are declared again. -/
def Advisory.duplicates (advisories : List Advisory) : List Advisory :=
  advisories.filter fun advisory => advisory.category = .duplicateField

namespace Advisory

theorem duplicates_append (advisories others : List Advisory) :
    duplicates (advisories ++ others) = duplicates advisories ++ duplicates others :=
  List.filter_append ..

theorem duplicates_eq_nil (category : AdvisoryCategory) {advisories : List Advisory}
    (hne : category ≠ .duplicateField)
    (h : ∀ advisory ∈ advisories, advisory.category = category) : duplicates advisories = [] := by
  apply List.filter_eq_nil_iff.2
  intro advisory hmem
  simpa [h advisory hmem] using hne

theorem duplicates_missing (missing : List RegistryKind) :
    duplicates (missing.map missingRegistry) = [] := by
  refine duplicates_eq_nil .missingRegistry nofun fun advisory hmem => ?_
  obtain ⟨kind, -, rfl⟩ := List.mem_map.1 hmem
  rfl

theorem duplicates_repeated (owner : TypeRef) (names : List String) :
    duplicates (names.map (duplicateField owner)) = names.map (duplicateField owner) := by
  apply List.filter_eq_self.2
  intro advisory hmem
  obtain ⟨name, -, rfl⟩ := List.mem_map.1 hmem
  rfl

theorem duplicates_checkEnds (registry : Registry) (owner : TypeRef) (doc : TypeDocument) :
    duplicates (checkEnds registry owner doc) = [] :=
  duplicates_eq_nil .domainMismatch nofun fun _ hmem => category_of_mem_checkEnds hmem

theorem duplicates_vanishing (linker : Linker) (types : List StructuredType)
    (templates : StructuredType → List Template) :
    duplicates (types.flatMap fun type => linker.vanishing type.owner (templates type)) = [] := by
  refine duplicates_eq_nil .emptyResolution nofun fun advisory hmem => ?_
  obtain ⟨type, -, hmem⟩ := List.mem_flatMap.1 hmem
  exact category_of_mem_vanishing hmem

end Advisory

/-! ## What needs no relations -/

/-- A document without the sections that need relations. -/
def CompiledDocument.unlinked (doc : CompiledDocument) : CompiledDocument where
  detail := doc.detail
  source := doc.source
  data := doc.data

/-- A type without all that relations have a part in. -/
def StructuredType.unlinked (type : StructuredType) : StructuredType :=
  { type with
    document := type.document.unlinked
    advisories := Advisory.duplicates type.advisories }

/-- A report without all that relations have a part in, on a run that misses some registries. -/
def Report.unlinked (missing : List RegistryKind) (report : Report) : Report where
  documents := report.documents.mapWithKey fun _ doc => doc.unlinked
  symbols := report.symbols
  advisories := missing.map .missingRegistry ++ Advisory.duplicates report.advisories

theorem unlinked_structured (type : ResolvedType) (registry : Registry) (given : List String) :
    (type.structured registry given).unlinked =
      type.structured registry.withoutRelations given := by
  unfold ResolvedType.structured StructuredType.unlinked CompiledDocument.unlinked
  cases type.data with
  | none => simp only [Advisory.duplicates_checkEnds, checkEnds_withoutRelations]
  | some data =>
      simp only [Advisory.duplicates_append, Advisory.duplicates_checkEnds,
        Advisory.duplicates_repeated, checkEnds_withoutRelations]

theorem unlinked_linked (linker : Linker) (type : StructuredType) (search : Option SearchSection) :
    (type.linked linker search).document.unlinked = type.document.unlinked := by
  unfold StructuredType.linked StructuredType.indexed
  rw [present_eq]
  rfl

theorem publishedSymbols_unlinked (types : List StructuredType) :
    publishedSymbols (types.map StructuredType.unlinked) = publishedSymbols types :=
  List.foldl_map ..

theorem compiledDocuments_unlinked (linker : Linker) {types : List StructuredType}
    {searches : List (Option SearchSection)}
    (h : types.mapM (StructuredType.resolveSearch linker.registry) = .ok searches) :
    (compiledDocuments (List.zipWith (StructuredType.linked linker) types searches)).mapWithKey
        (fun _ doc => doc.unlinked) =
      compiledDocuments (types.map StructuredType.unlinked) := by
  rw [compiledDocuments, compiledDocuments, SortedMap.mapWithKey_ofList, List.map_map, List.map_map]
  congr 1
  refine map_zipWith_of_forall₂ (fun type search => ?_) (forall₂_of_mapM h)
  exact Prod.ext (owner_linked linker type search) (unlinked_linked linker type search)

theorem unlinked_linkedReport {registry : Registry} {types : List StructuredType}
    {searches : List (Option SearchSection)} (missing : List RegistryKind)
    (h : types.mapM (StructuredType.resolveSearch registry) = .ok searches) :
    (linkedReport registry types searches).unlinked missing =
      { documents := compiledDocuments (types.map StructuredType.unlinked)
        symbols := publishedSymbols types
        advisories := missing.map .missingRegistry ++
          (types.map StructuredType.unlinked).flatMap StructuredType.advisories } := by
  have hstructured : Advisory.duplicates (types.flatMap StructuredType.advisories) =
      (types.map StructuredType.unlinked).flatMap StructuredType.advisories := by
    rw [Advisory.duplicates, List.filter_flatMap, List.flatMap_map]
    rfl
  have hpresented (linker : Linker) :
      Advisory.duplicates (types.flatMap fun type => (type.present linker).advisories) = [] := by
    simp only [present_eq]
    exact Advisory.duplicates_vanishing linker types _
  have hindexed (linker : Linker) :
      Advisory.duplicates (types.flatMap (StructuredType.searchAdvisories linker)) = [] :=
    Advisory.duplicates_vanishing linker types _
  unfold Report.unlinked linkedReport
  simp only [compiledDocuments_unlinked ⟨registry, publishedSymbols types⟩ h,
    Advisory.duplicates_append, Advisory.duplicates_missing, hstructured, hpresented, hindexed,
    List.nil_append, List.append_nil]

/-! ## The run without relations -/

section Runs

variable {σ : Type} {ids : IdAllocator σ} {registry : Registry} {documents : AuthoredTypes}
  {state state' : σ} {full : Report}

/-- Whatever compiles with relations compiles without them, to what needs none. -/
theorem compile_withoutRelations (hrelations : registry.hasRelations = true)
    (h : compile ids registry documents state = (.ok full, state')) :
    compile ids registry.withoutRelations documents state =
      (.ok (full.unlinked registry.withoutRelations.missing), state') := by
  obtain ⟨types, htypes, hfinish, rfl⟩ := of_compile_ok h
  have hwithout := (resolveTypes_withoutRelations registry documents.toList).trans htypes
  have hstructured : structuredTypes ids registry.withoutRelations documents state types =
      (structuredTypes ids registry documents state types).map StructuredType.unlinked := by
    rw [structuredTypes, structuredTypes, List.map_map]
    exact List.map_congr_left fun type _ => (unlinked_structured type registry _).symm
  rw [finish_of_relations hrelations] at hfinish
  obtain ⟨searches, hsearches, rfl⟩ := exists_of_map_eq_ok hfinish
  rw [compile_of_resolved hwithout, hstructured, unlinked_linkedReport _ hsearches]
  have hnone : registry.withoutRelations.hasRelations = false := rfl
  simp only [finish, hnone, Bool.false_eq_true, if_false, publishedSymbols_unlinked]

/-- Over the output of a run, the fields of a type without repeated names are given the ids that
they had, if these differ. -/
theorem given_ofOutputs {report : Report} {indent : Nat} {owner : TypeRef} {doc : TypeDocument}
    (hcompile : compile ids registry documents state = (.ok report, state'))
    (hread : report.Readable indent) (hdoc : documents.find? owner = some doc)
    (hnames : (doc.declared.map FieldDeclaration.systemName).Nodup)
    (hnodup : (ids.given documents state owner).Nodup) {ν : Type} (mint : ν → String × ν)
    (minter : ν) :
    (StableIds.allocate mint).given documents
        (.start (.ofOutputs (report.texts indent)) minter) owner =
      ids.given documents state owner := by
  have hlater := IdAllocator.length_given (StableIds.allocate mint)
    (.start (.ofOutputs (report.texts indent)) minter) hdoc
  refine eq_of_idsOfName hlater (ids.length_given _ hdoc) fun name => ?_
  rw [idsOfName_ofOutputs hcompile hread hdoc hnodup]
  have hperm := ids_ofOutputs_perm hcompile hread hdoc hnodup name
  have hlength : (idsOfName name doc.declared (ids.given documents state owner)).length ≤ 1 := by
    have hcount := List.nodup_iff_count_le_one.1 hnames name
    rw [List.count, List.countP_map] at hcount
    rw [length_idsOfName (ids.length_given _ hdoc)]
    exact hcount
  generalize idsOfName name doc.declared (ids.given documents state owner) = before at *
  match before with
  | [] => exact List.perm_nil.1 hperm
  | [id] => exact List.perm_singleton.1 hperm
  | _ :: _ :: _ => simp at hlength

/-- What compiles with relations compiles without them, too. The allocator ends in the same state,
the documents are the same but for the sections that need relations, and so are the symbols; the
advisories tell of missing registries and then of repeated names. Once the relations are there, the
documents compile over this output, and a type is given the ids that it would have had at first, if
none of its names and none of these ids is repeated. -/
theorem degraded_run_agrees (hrelations : registry.hasRelations = true)
    (h : compile ids registry documents state = (.ok full, state')) :
    ∃ degraded, compile ids registry.withoutRelations documents state = (.ok degraded, state') ∧
      degraded.documents = full.documents.mapWithKey (fun _ doc => doc.unlinked) ∧
      degraded.symbols = full.symbols ∧
      degraded.advisories = registry.withoutRelations.missing.map .missingRegistry ++
        Advisory.duplicates full.advisories ∧
      ((∀ owner doc, documents.find? owner = some doc → doc.NamesOnce) →
        ∀ (indent : Nat) (ν : Type) (mint : ν → String × ν) (minter : ν),
          let later := StableIds.start (.ofOutputs (degraded.texts indent)) minter
          (∃ restored last, compile (StableIds.allocate mint) registry documents later =
            (.ok restored, last)) ∧
          ∀ owner doc, documents.find? owner = some doc →
            (doc.declared.map FieldDeclaration.systemName).Nodup →
            (ids.given documents state owner).Nodup →
            (StableIds.allocate mint).given documents later owner =
              ids.given documents state owner) := by
  have hdegraded := compile_withoutRelations hrelations h
  refine ⟨_, hdegraded, rfl, rfl, rfl, fun honce indent ν mint minter => ⟨?_, ?_⟩⟩
  · obtain ⟨types, htypes, hfinish, -⟩ := of_compile_ok h
    obtain ⟨restored, hrestored, -⟩ := compile_ok_of_resolved htypes hfinish
      (StableIds.allocate mint) (.start (.ofOutputs _) minter)
    exact ⟨restored, _, hrestored⟩
  · intro owner doc hdoc hnames hnodup
    have hread := Report.readable_of_compile hdegraded honce indent
    exact given_ofOutputs hdegraded hread hdoc hnames hnodup mint minter

end Runs

/-! ## A library -/

def authorNamedTwice : TypeDocument where
  data := some { fields := [{ systemName := "name" }, { systemName := "name" }] }

def bookWithoutPages : TypeDocument where
  data := some { fields := [{ systemName := "isbn" }, { systemName := "title" }] }
  display := some { title := some "$pages" }

def writtenByEditors : TypeDocument where
  domain := some ["editor"]

def libraryDocuments : AuthoredTypes := .ofList [
  (.entity "author", authorNamedTwice), (.entity "book", bookWithoutPages),
  (.relation "wrote", writtenByEditors)]

theorem namesOnce_libraryDocuments {owner : TypeRef} {doc : TypeDocument}
    (h : libraryDocuments.find? owner = some doc) : doc.NamesOnce := by
  have hentry : (owner, doc) ∈ [(TypeRef.entity "author", authorNamedTwice),
      (.entity "book", bookWithoutPages), (.relation "wrote", writtenByEditors)] :=
    SortedMap.find?_eq_some_iff.1 h
  simp only [List.mem_cons, Prod.mk.injEq, List.not_mem_nil, or_false] at hentry
  rcases hentry with ⟨-, rfl⟩ | ⟨-, rfl⟩ | ⟨-, rfl⟩
  · simp [TypeDocument.NamesOnce, TypeDocument.declared, authorNamedTwice]
  · simp [TypeDocument.NamesOnce, TypeDocument.declared, bookWithoutPages]
  · simp [TypeDocument.NamesOnce, TypeDocument.declared, writtenByEditors]

/-- An author's name is declared twice, a book has no pages, and the registry knows of no editors;
only the first of these shows without relations. The ids of a book are found again. -/
theorem ids_of_books_found_again : ∃ full degraded state,
    compile (StableIds.allocate lengthening) libraryRegistry libraryDocuments (.start .empty 1) =
      (.ok full, state) ∧
    compile (StableIds.allocate lengthening) libraryRegistry.withoutRelations libraryDocuments
      (.start .empty 1) = (.ok degraded, state) ∧
    full.advisories = [.missingRegistry .entities, .missingRegistry .groups,
      .duplicateField (.entity "author") "name",
      .domainMismatch (.relation "wrote") "domain" ["editor"] ["author"],
      .emptyResolution (.entity "book") "display.title" "$pages" ["$pages"]] ∧
    degraded.advisories = [.missingRegistry .entities, .missingRegistry .relations,
      .missingRegistry .groups, .duplicateField (.entity "author") "name"] ∧
    ∀ minter, (StableIds.allocate lengthening).given libraryDocuments
        (.start (.ofOutputs (degraded.texts 4)) minter) (.entity "book") = ["nnn", "nnnn"] := by
  have hok : (compile (StableIds.allocate lengthening) libraryRegistry libraryDocuments
    (.start .empty 1)).1.isOk = true := rfl
  obtain ⟨full, state, hfull⟩ := exists_report hok
  have hfound : (compile (StableIds.allocate lengthening) libraryRegistry libraryDocuments
      (.start .empty 1)).1.toOption.map Report.advisories = some [
        .missingRegistry .entities, .missingRegistry .groups,
        .duplicateField (.entity "author") "name",
        .domainMismatch (.relation "wrote") "domain" ["editor"] ["author"],
        .emptyResolution (.entity "book") "display.title" "$pages" ["$pages"]] := by
    decide +kernel
  rw [hfull] at hfound
  have hadvisories : full.advisories = _ := Option.some.inj hfound
  have hgiven : (StableIds.allocate lengthening).given libraryDocuments (.start .empty 1)
      (.entity "book") = ["nnn", "nnnn"] := rfl
  obtain ⟨degraded, hdegraded, -, -, hfewer, hlater⟩ := degraded_run_agrees rfl hfull
  refine ⟨full, degraded, state, hfull, hdegraded, hadvisories, ?_, fun minter => ?_⟩
  · rw [hfewer, hadvisories]
    rfl
  · obtain ⟨-, hsame⟩ := hlater (fun _ _ => namesOnce_libraryDocuments) 4 Nat lengthening minter
    have hbook := hsame (.entity "book") bookWithoutPages rfl (by decide)
    rw [hgiven] at hbook
    exact hbook (by decide)

/-! ## One id for two fields -/

def isbnAndTitle : TypeDocument where
  data := some { fields := [{ systemName := "isbn" }, { systemName := "title" }] }

def numberedBook : AuthoredTypes := .ofList [(.entity "book", isbnAndTitle)]

/-- The title is on record under the id that is minted first. -/
def titleUnderFirst : History := History.empty.insert (.entity "book") "title" "n"

/-- What is left of a book whose number shares the id of the title. -/
def onlyTitleLeft : CompiledDocument where
  data := some { fields := .ofList [("n", { systemName := "title" })] }

theorem namesOnce_onlyTitleLeft : onlyTitleLeft.NamesOnce := by
  rintro _ ⟨⟩ field hfield
  have hfields : field ∈ List.replicate 1 ({ systemName := "title" } : FieldDeclaration) := hfield
  rw [List.eq_of_mem_replicate hfields]
  rfl

/-- No name is repeated, but the number is given the id of the title. So it is not in the output,
and it is given another id once the relations are there. -/
theorem shared_id_is_lost : ∃ full degraded state,
    compile (StableIds.allocate lengthening) { relations := some ∅ } numberedBook
      (.start titleUnderFirst 1) = (.ok full, state) ∧
    compile (StableIds.allocate lengthening) (Registry.withoutRelations { relations := some ∅ })
      numberedBook (.start titleUnderFirst 1) = (.ok degraded, state) ∧
    isbnAndTitle.NamesOnce ∧ (isbnAndTitle.declared.map FieldDeclaration.systemName).Nodup ∧
    (StableIds.allocate lengthening).given numberedBook (.start titleUnderFirst 1)
      (.entity "book") = ["n", "n"] ∧
    (StableIds.allocate lengthening).given numberedBook
      (.start (.ofOutputs (degraded.texts 4)) 2) (.entity "book") = ["nn", "n"] := by
  have hok : (compile (StableIds.allocate lengthening) { relations := some ∅ } numberedBook
    (.start titleUnderFirst 1)).1.isOk = true := rfl
  obtain ⟨full, state, hfull⟩ := exists_report hok
  have hfound : (compile (StableIds.allocate lengthening) { relations := some ∅ } numberedBook
      (.start titleUnderFirst 1)).1.toOption.map Report.documents =
        some (.ofList [(.entity "book", onlyTitleLeft)]) := rfl
  rw [hfull] at hfound
  have hdocuments : full.documents = _ := Option.some.inj hfound
  refine ⟨full, _, state, hfull, compile_withoutRelations rfl hfull, ?_, by decide, rfl, ?_⟩
  · simp [TypeDocument.NamesOnce, TypeDocument.declared, isbnAndTitle]
  · have hhistory (missing : List RegistryKind) :
        History.ofOutputs ((full.unlinked missing).texts 4) = titleUnderFirst := by
      rw [Report.texts, Report.unlinked, hdocuments]
      exact History.ofOutputs_text namesOnce_onlyTitleLeft (.entity "book") 4
    rw [hhistory]
    rfl

end SchemaLink
