import SchemaLink.Proofs.Compilation.GivenIds
import SchemaLink.Proofs.Compilation.Indexing
import SchemaLink.Proofs.Compilation.Recompilation
import SchemaLink.Proofs.Linker.Redaction
import SchemaLink.Workspace.Run

/-! # Compilation without ids

Which ids an allocator hands out shows in the fields of the output, in lookups and in the
texts of templates, and nowhere else. With these struck out, any two allocators come to the
same outcome, so a workspace can be checked without spending the ids of a run. -/

namespace SchemaLink

/-! ## Output struck out -/

/-- What stands in the place of a template. -/
def Template.redacted (template : Template) : String := redact template.text

/-- A document without its fields and without the texts of its templates. Every other part of it
is kept, and so is whether a template has any text. -/
def CompiledDocument.redacted (doc : CompiledDocument) : CompiledDocument :=
  { doc with
    data := doc.data.map fun data => { data with fields := ∅ }
    display := doc.display.map (DisplaySection.filled Template.redacted id)
    edit := doc.edit.map (EditSection.filled Template.redacted)
    search := doc.search.map (SearchSection.filled Template.redacted) }

/-- A report without ids. Advisories are kept as they are. -/
def Report.redacted (report : Report) : Report :=
  { report with
    documents := report.documents.mapWithKey fun _ doc => doc.redacted
    symbols := report.symbols.redacted }

def StructuredType.redacted (type : StructuredType) : StructuredType :=
  { type with
    document := type.document.redacted
    lookup := type.lookup.map FieldLookup.redacted }

/-! ## Templates struck out

Striking out what a template was filled in to is another way to fill it in. -/

section Filled

variable (fill : Template → String) (conditions : String → String)

theorem Template.redacted_fillOptional (place : String) (text anchor anchor' : Option String) :
    fillOptional redacted place (fillOptional fill place text anchor) anchor' =
      fillOptional (redact ∘ fill) place text anchor := by
  cases text <;> rfl

theorem PanelField.redacted_filled (place : String) (item : PanelField) :
    (item.filled fill conditions place).filled Template.redacted id place =
      item.filled (redact ∘ fill) conditions place := by
  simp only [filled, Option.map_id]
  rfl

/-- Numbered items that change twice, each as its number tells. -/
theorem map_zipIdx_twice {α : Type} {first second both : α × Nat → α}
    (h : ∀ item i, second (first (item, i), i) = both (item, i)) (items : Option (List α)) :
    (items.map fun items => items.zipIdx.map first).map (fun items => items.zipIdx.map second) =
      items.map fun items => items.zipIdx.map both := by
  rw [Option.map_map]
  congr 1
  funext items
  rw [Function.comp_apply, zipIdx_map_zipIdx, List.map_map]
  exact List.map_congr_left fun entry _ => h entry.1 entry.2

theorem Panel.redacted_filled (place : String) (panel : Panel) :
    (panel.filled fill conditions place).filled Template.redacted id place =
      panel.filled (redact ∘ fill) conditions place := by
  simp only [filled, Template.redacted_fillOptional]
  congr 1
  exact map_zipIdx_twice (fun item j => item.redacted_filled fill conditions (fieldPlace place j)) _

theorem redacted_filledLayout (part : String) (panels : Option (List Panel)) :
    filledLayout Template.redacted id part (filledLayout fill conditions part panels) =
      filledLayout (redact ∘ fill) conditions part panels :=
  map_zipIdx_twice (fun panel i => panel.redacted_filled fill conditions (panelPlace part i)) panels

theorem DisplaySection.redacted_filled (display : DisplaySection) :
    (display.filled fill conditions).filled Template.redacted id =
      display.filled (redact ∘ fill) conditions := by
  simp only [filled, Template.redacted_fillOptional, redacted_filledLayout]

theorem EditSection.redacted_filled (edit : EditSection) :
    (edit.filled fill).filled Template.redacted = edit.filled (redact ∘ fill) := by
  simp only [filled, redacted_filledLayout]

theorem SearchField.redacted_filled (place : String) (field : SearchField) :
    (field.filled fill place).filled Template.redacted place =
      field.filled (redact ∘ fill) place := by
  have hkind := kind_filled fill place field
  rw [filled, filledValue, hkind]
  unfold filled filledValue
  cases field.kind with
  | nested =>
      simp only [Template.redacted_fillOptional, Option.map_map]
      congr 2
      funext parts
      simp only [Function.comp_apply, SortedMap.mapWithKey, List.map_map]
      rfl
  | interval => simp only [Template.redacted_fillOptional]
  | simple => simp only [Template.redacted_fillOptional]

theorem SearchSection.redacted_filled (search : SearchSection) :
    (search.filled fill).filled Template.redacted = search.filled (redact ∘ fill) := by
  unfold filled
  congr 1
  exact map_zipIdx_twice (fun field i => field.redacted_filled fill (fieldPlace i)) search.fields

end Filled

theorem CompiledDocument.redacted_redacted (doc : CompiledDocument) :
    doc.redacted.redacted = doc.redacted := by
  have hfill : ∀ template : Template, redact template.redacted = template.redacted :=
    fun template => redact_redact template.text
  simp only [redacted, Option.map_map, Function.comp_def, DisplaySection.redacted_filled,
    EditSection.redacted_filled, SearchSection.redacted_filled, hfill]

/-! ## Later stages -/

section Linking

variable (linker : Linker)

theorem redact_comp_fill (owner : TypeRef) :
    redact ∘ linker.redacted.fill owner = redact ∘ linker.fill owner := by
  funext template
  have htext := congrArg Substitution.text
    (linker.redacted_substitute owner template.text template.anchor)
  simpa only [Substitution.redacted, Function.comp_apply, Linker.fill] using htext

theorem vanishing_redacted (owner : TypeRef) (templates : List Template) :
    linker.redacted.vanishing owner templates = linker.vanishing owner templates := by
  have hvanishing : linker.redacted.vanishing? owner = linker.vanishing? owner := by
    funext template
    have hresult := linker.redacted_substitute owner template.text template.anchor
    have hunresolved := congrArg Substitution.unresolved hresult
    simp only [Substitution.redacted] at hunresolved
    rw [Linker.vanishing?, ← Substitution.vanished_redacted, hresult,
      Substitution.vanished_redacted, hunresolved]
    rfl
  rw [Linker.vanishing, hvanishing]
  rfl

/-- What a type is linked to shows no more than the redacted type does. -/
theorem redacted_linked (type : StructuredType) (search : Option SearchSection) :
    (type.redacted.linked linker.redacted search).document.redacted =
      (type.linked linker search).document.redacted := by
  have hdocument : ∀ (linker : Linker) (type : StructuredType),
      (type.linked linker search).document.redacted =
        { type.document.redacted with
          display := type.authored.display.map
            (DisplaySection.filled (redact ∘ linker.fill type.owner) linker.registry.resolveNames)
          edit := type.authored.edit.map (EditSection.filled (redact ∘ linker.fill type.owner))
          search := search.map (SearchSection.filled (redact ∘ linker.fill type.owner))
          searchDisplay := type.authored.searchDisplay } := by
    intro linker type
    simp only [StructuredType.linked, present_eq, StructuredType.indexed,
      CompiledDocument.redacted, Option.map_map, Function.comp_def,
      DisplaySection.redacted_filled, EditSection.redacted_filled, SearchSection.redacted_filled]
  have howner : type.redacted.owner = type.owner := rfl
  have hbefore : type.redacted.document.redacted = type.document.redacted :=
    type.document.redacted_redacted
  rw [hdocument, hdocument, howner, redact_comp_fill, hbefore]
  rfl

theorem advisories_present_redacted (type : StructuredType) :
    (type.redacted.present linker.redacted).advisories = (type.present linker).advisories := by
  simp only [present_eq]
  exact vanishing_redacted linker type.owner _

theorem searchAdvisories_redacted (type : StructuredType) :
    type.redacted.searchAdvisories linker.redacted = type.searchAdvisories linker :=
  vanishing_redacted linker type.owner _

end Linking

theorem publishedSymbols_redacted (types : List StructuredType) :
    publishedSymbols (types.map StructuredType.redacted) = (publishedSymbols types).redacted := by
  have hlookups : (publishedSymbols (types.map StructuredType.redacted)).lookups =
      (publishedSymbols types).lookups.mapWithKey fun _ lookup => lookup.redacted := by
    rw [publishedSymbols_eq, publishedSymbols_eq, SortedMap.mapWithKey_ofList, List.filterMap_map,
      List.map_filterMap]
    simp only [Function.comp_def, Option.map_map, StructuredType.redacted]
  exact congrArg SymbolTable.mk hlookups

theorem compiledDocuments_redacted (types : List StructuredType) :
    (compiledDocuments types).mapWithKey (fun _ doc => doc.redacted) =
      .ofList (types.map fun type => (type.owner, type.document.redacted)) := by
  rw [compiledDocuments, SortedMap.mapWithKey_ofList, List.map_map]
  rfl

theorem redacted_linkedReport (registry : Registry) (types : List StructuredType)
    (searches : List (Option SearchSection)) :
    (linkedReport registry (types.map StructuredType.redacted) searches).redacted =
      (linkedReport registry types searches).redacted := by
  let linker : Linker := ⟨registry, publishedSymbols types⟩
  have hlinker : (⟨registry, (publishedSymbols types).redacted⟩ : Linker) = linker.redacted := rfl
  have hdocuments : (List.zipWith (StructuredType.linked linker.redacted)
        (types.map StructuredType.redacted) searches).map
          (fun type => (type.owner, type.document.redacted)) =
      (List.zipWith (StructuredType.linked linker) types searches).map
        fun type => (type.owner, type.document.redacted) := by
    rw [List.zipWith_map_left, List.map_zipWith, List.map_zipWith]
    congr 1
    funext type search
    exact congrArg (Prod.mk type.owner) (redacted_linked linker type search)
  have hpresented : (types.map StructuredType.redacted).flatMap
      (fun type => (type.present linker.redacted).advisories) =
        types.flatMap fun type => (type.present linker).advisories := by
    rw [List.flatMap_map]
    simp only [advisories_present_redacted]
  have hindexed : (types.map StructuredType.redacted).flatMap
      (StructuredType.searchAdvisories linker.redacted) =
        types.flatMap (StructuredType.searchAdvisories linker) := by
    rw [List.flatMap_map]
    simp only [searchAdvisories_redacted]
  have hstructured : (types.map StructuredType.redacted).flatMap StructuredType.advisories =
      types.flatMap StructuredType.advisories := List.flatMap_map ..
  unfold linkedReport Report.redacted
  simp only [publishedSymbols_redacted, SymbolTable.redacted_redacted, compiledDocuments_redacted,
    hlinker, hdocuments, hpresented, hindexed, hstructured]
  rfl

/-- What follows the structure of types does the same to redacted types, as far as can be seen
without ids. -/
theorem redacted_finish (registry : Registry) (types : List StructuredType) :
    (finish registry (types.map StructuredType.redacted)).map Report.redacted =
      (finish registry types).map Report.redacted := by
  by_cases hrelations : registry.hasRelations
  · have hsearches : (types.map StructuredType.redacted).mapM
        (StructuredType.resolveSearch registry) =
          types.mapM (StructuredType.resolveSearch registry) := by
      rw [List.mapM_map]
      rfl
    rw [finish_of_relations hrelations, finish_of_relations hrelations, hsearches]
    cases types.mapM (StructuredType.resolveSearch registry) with
    | error error => simp only [Except.map]
    | ok searches => simp only [Except.map, redacted_linkedReport]
  · have hdocuments : ∀ type : StructuredType,
        type.redacted.document.redacted = type.document.redacted :=
      fun type => type.document.redacted_redacted
    unfold finish
    simp only [hrelations, Bool.false_eq_true, if_false, Except.map, Report.redacted,
      compiledDocuments_redacted, publishedSymbols_redacted, SymbolTable.redacted_redacted,
      List.map_map, List.flatMap_map, Function.comp_def, hdocuments]
    rfl

/-! ## Structure -/

namespace FieldLookup

theorem redacted_insert (lookup : FieldLookup) (name id : String) :
    (lookup.insert name id).redacted = lookup.redacted.insert name "" := by
  rw [insert, redacted, SortedMap.mapWithKey_insert]
  rfl

theorem isSome_find?_redacted (lookup : FieldLookup) (name : String) :
    (lookup.redacted.find? name).isSome = (lookup.find? name).isSome := by
  rw [find?, redacted, SortedMap.find?_mapWithKey, Option.isSome_map]
  rfl

/-- Only the names that are declared show in a redacted lookup. -/
theorem redacted_ofList (fields : List (String × String)) :
    (ofList fields).redacted =
      (fields.map Prod.fst).foldl (fun lookup name => lookup.insert name "") initial.redacted := by
  unfold ofList
  generalize initial = lookup
  induction fields generalizing lookup with
  | nil => rfl
  | cons field fields ih =>
      rw [List.foldl_cons, ih, redacted_insert, List.map_cons, List.foldl_cons]

end FieldLookup

theorem repeatedNames_redacted (lookup : FieldLookup) (declared : List (String × String)) :
    repeatedNames lookup declared =
      repeatedNames lookup.redacted ((declared.map Prod.fst).map fun name => (name, "")) := by
  induction declared generalizing lookup with
  | nil => rfl
  | cons field declared ih =>
      have hlater := ih (lookup.insert field.1 field.2)
      rw [FieldLookup.redacted_insert] at hlater
      simp only [List.map_cons, repeatedNames, hlater, FieldLookup.isSome_find?_redacted]

theorem names_of_given {fields : List FieldDeclaration} {given : List String}
    (h : given.length = fields.length) :
    ((given.zip fields).map fun entry => (entry.2.systemName, entry.1)).map Prod.fst =
      fields.map FieldDeclaration.systemName := by
  have hzip : (given.zip fields).map Prod.snd = fields := List.map_snd_zip (Nat.le_of_eq h.symm)
  calc ((given.zip fields).map fun entry => (entry.2.systemName, entry.1)).map Prod.fst
      = ((given.zip fields).map Prod.snd).map FieldDeclaration.systemName := by
        rw [List.map_map, List.map_map]
        rfl
    _ = fields.map FieldDeclaration.systemName := by rw [hzip]

/-- Ids that are given to all fields of a type do not show once they are struck out. -/
theorem ResolvedType.redacted_structured {registry : Registry} {type : ResolvedType}
    {given given' : List String} (h : given.length = type.fields.length)
    (h' : given'.length = type.fields.length) :
    (type.structured registry given).redacted = (type.structured registry given').redacted := by
  unfold structured
  cases hdata : type.data with
  | none => rfl
  | some data =>
      have hfields : type.fields = data.fields := by rw [fields, hdata]
      have hnames := names_of_given (hfields ▸ h)
      have hnames' := names_of_given (hfields ▸ h')
      -- Lookup and repetitions are told by the names alone, which are the same on both sides.
      simp only [StructuredType.redacted, Option.map_some, FieldLookup.redacted_ofList,
        repeatedNames_redacted .initial, hnames, hnames']
      rfl

/-- The system names that a document declares, in order. -/
def TypeDocument.names (doc : TypeDocument) : List String :=
  doc.declared.map FieldDeclaration.systemName

theorem names_of_resolveType {registry : Registry} {owner : TypeRef} {doc : TypeDocument}
    {type : ResolvedType} (h : resolveType registry owner doc = .ok type) :
    type.fields.map FieldDeclaration.systemName = doc.names := by
  obtain ⟨-, -, hresolved⟩ := resolveType_eq_ok h
  unfold TypeDocument.names TypeDocument.declared ResolvedType.fields
  generalize type.data = resolved at hresolved
  generalize doc.data = authored at hresolved
  cases hresolved with
  | none => rfl
  | some hresolved => exact (ResolvedFields.of_resolve hresolved).systemNames_eq

theorem length_fields_of_resolveType {registry : Registry} {owner : TypeRef} {doc : TypeDocument}
    {type : ResolvedType} (h : resolveType registry owner doc = .ok type) :
    type.fields.length = doc.declared.length := by
  simpa [TypeDocument.names] using congrArg List.length (names_of_resolveType h)

theorem length_fields_of_resolveTypes {registry : Registry}
    {docs : List (TypeRef × TypeDocument)} {types : List ResolvedType}
    (h : resolveTypes registry docs = .ok types) {type : ResolvedType} (hmem : type ∈ types) :
    type.fields.length = type.authored.declared.length := by
  obtain ⟨entry, -, htype⟩ := exists_of_forall₂_right (forall₂_of_resolveTypes h) hmem
  rw [length_fields_of_resolveType htype, (resolveType_eq_ok htype).2.1]

section Compilation

variable {σ τ : Type} (ids : IdAllocator σ) (ids' : IdAllocator τ) {registry : Registry}
  {documents : AuthoredTypes} (state : σ) (state' : τ)

theorem length_given_of_mem {types : List ResolvedType}
    (h : resolveTypes registry documents.toList = .ok types) {type : ResolvedType}
    (hmem : type ∈ types) :
    (ids.given documents state type.owner).length = type.fields.length := by
  have hdoc : (type.owner, type.authored) ∈ documents.toList := by
    rw [← owners_of_resolveTypes h]
    exact List.mem_map_of_mem hmem
  rw [ids.length_given state (SortedMap.find?_eq_some_iff.2 hdoc),
    length_fields_of_resolveTypes h hmem]

theorem redacted_structuredTypes {types : List ResolvedType}
    (h : resolveTypes registry documents.toList = .ok types) :
    (structuredTypes ids registry documents state types).map StructuredType.redacted =
      (structuredTypes ids' registry documents state' types).map StructuredType.redacted := by
  rw [structuredTypes, structuredTypes, List.map_map, List.map_map]
  apply List.map_congr_left
  intro type hmem
  exact ResolvedType.redacted_structured (length_given_of_mem ids state h hmem)
    (length_given_of_mem ids' state' h hmem)

/-- A run shows no ids once they are struck out, whichever allocator handed them out. -/
theorem redacted_compile (registry : Registry) (documents : AuthoredTypes) :
    (compile ids registry documents state).1.map Report.redacted =
      (compile ids' registry documents state').1.map Report.redacted := by
  cases htypes : resolveTypes registry documents.toList with
  | error error => rw [compile_of_unresolved htypes, compile_of_unresolved htypes]
  | ok types =>
      rw [compile_of_resolved htypes, compile_of_resolved htypes, ← redacted_finish,
        redacted_structuredTypes ids ids' state state' htypes, redacted_finish]

end Compilation

/-! ## Checks of a workspace -/

namespace Workspace

variable {μ ν : Type} (disk : Files.Disk) (mint : μ → String × μ) (mint' : ν → String × ν)
  (tree : Files.Tree) (settings : Settings) (minter : μ) (minter' : ν)

theorem fst_check :
    (check mint tree settings minter).1 = (do
      let registry ← loadRegistry tree settings
      let documents ← loadDocuments tree settings
      let start := StableIds.start (loadHistory tree settings documents.keys) minter
      (compile (StableIds.allocate mint) registry documents start).1.mapError .link) := by
  unfold check compileAll
  cases loadRegistry tree settings with
  | error error => rfl
  | ok registry =>
      cases loadDocuments tree settings with
      | error error => rfl
      | ok documents =>
          simp only [bind, Except.bind, pure, Except.pure]
          generalize compile _ registry documents _ = outcome
          rcases outcome with ⟨error | report, ids⟩ <;> rfl

/-- A check reports the same wherever new ids come from. -/
theorem redacted_check :
    (check mint tree settings minter).1.map Report.redacted =
      (check mint' tree settings minter').1.map Report.redacted := by
  have hmap : ∀ outcome : Except LinkError Report,
      (outcome.mapError WorkspaceError.link).map Report.redacted =
        (outcome.map Report.redacted).mapError .link := by
    intro outcome
    cases outcome <;> rfl
  rw [fst_check, fst_check]
  cases loadRegistry tree settings with
  | error error => rfl
  | ok registry =>
      cases loadDocuments tree settings with
      | error error => rfl
      | ok documents =>
          simp only [bind, Except.bind, hmap]
          rw [redacted_compile (StableIds.allocate mint) (StableIds.allocate mint') _ _]

/-- A run checks the workspace before it writes anything. -/
theorem fst_run :
    (run disk mint tree settings minter).1 =
      match (check mint tree settings minter).1 with
      | .error error => .error error
      | .ok report => (writeOutputs disk tree settings report).1.map fun _ => report := by
  unfold run
  rcases check mint tree settings minter with ⟨error | report, minter⟩
  · rfl
  · dsimp only
    rcases writeOutputs disk tree settings report with ⟨error | _, tree⟩ <;> rfl

/-- A run reports what a check does, unless it cannot write its output. -/
theorem redacted_run :
    let checked := (check mint tree settings minter).1
    let ran := (run disk mint' tree settings minter').1
    ran.map Report.redacted = checked.map Report.redacted ∨
      ∃ report failure, checked.map Report.redacted = .ok report.redacted ∧
        (writeOutputs disk tree settings report).1 = .error failure ∧ ran = .error failure := by
  intro checked ran
  have hchecked : checked.map Report.redacted =
      (check mint' tree settings minter').1.map Report.redacted :=
    redacted_check mint mint' tree settings minter minter'
  have hran := fst_run disk mint' tree settings minter'
  rw [hchecked]
  cases hcheck : (check mint' tree settings minter').1 with
  | error error =>
      rw [hcheck] at hran
      exact .inl (congrArg _ hran)
  | ok report =>
      rw [hcheck] at hran
      cases hwritten : (writeOutputs disk tree settings report).1 with
      | error failure =>
          simp only [hwritten, Except.map] at hran
          exact .inr ⟨report, failure, rfl, hwritten, hran⟩
      | ok _ =>
          simp only [hwritten, Except.map] at hran
          exact .inl (congrArg _ hran)

end Workspace

/-- Any two allocators come to the same error, or to reports that differ in nothing but ids: the
advisories are the same, and so are the documents apart from their fields and from the texts of
templates, which are empty in the same places. So a check reports what a run over the same workspace
does on any disk, unless the run cannot write its output. -/
theorem outcome_independent_of_ids {σ τ : Type} (ids : IdAllocator σ) (ids' : IdAllocator τ)
    (registry : Registry) (documents : AuthoredTypes) (state : σ) (state' : τ) :
    (compile ids registry documents state).1.map Report.redacted =
        (compile ids' registry documents state').1.map Report.redacted ∧
      ∀ (μ ν : Type) (disk : Files.Disk) (mint : μ → String × μ) (mint' : ν → String × ν)
        (tree : Files.Tree) (settings : Settings) (minter : μ) (minter' : ν),
        let checked := (Workspace.check mint tree settings minter).1
        let ran := (Workspace.run disk mint' tree settings minter').1
        ran.map Report.redacted = checked.map Report.redacted ∨
          ∃ report failure, checked.map Report.redacted = .ok report.redacted ∧
            (Workspace.writeOutputs disk tree settings report).1 = .error failure ∧
            ran = .error failure :=
  ⟨redacted_compile ids ids' state state' registry documents,
    fun _ _ disk mint mint' tree settings minter minter' =>
      Workspace.redacted_run disk mint mint' tree settings minter minter'⟩

/-- Two titles under one id leave one field; all else is as if each had an id of its own. -/
example :
    let once : IdAllocator Unit := fun _ _ state => ("x", state)
    let fields (outcome : Except LinkError Report) := outcome.toOption.map fun report =>
      report.documents.values.map fun doc => doc.data.map fun data => data.fields.size
    fields (compile once {} twiceTitled ()).1 = some [some 1] ∧
      fields (compile (StableIds.allocate lengthening) {} twiceTitled (.start .empty 0)).1 =
        some [some 2] := by
  decide

end SchemaLink
