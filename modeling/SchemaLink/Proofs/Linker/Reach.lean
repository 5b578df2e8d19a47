import SchemaLink.Proofs.Linker.Anchors
import SchemaLink.Proofs.Linker.Redaction

/-! # What a template reads

A template reads the entries of the relations that its hops and its anchor name, and fields of its
owner, of these relations and of the entity types at their ends. Whatever else is registered or
published makes no difference to what becomes of it. -/

namespace SchemaLink

/-! ## Names in a template -/

/-- The hop in a terminal, whether or not a property is bound to it. -/
def Terminal.hop? : Terminal → Option Hop
  | .hopProperty step _ | .hop step => some step
  | .ownProperty _ | .displayName | .entityTypeName | .field _ => none

/-- All hops that are written in a path, one in its terminal included. -/
def Path.steps (path : Path) : List Hop := path.hops ++ path.terminal.hop?.toList

/-- The paths in a template, repetitions included. -/
def templatePaths (template : String) : List Path :=
  ((Alternatives.pieces template).map Segment.ofString).flatMap fun segments =>
    segments.filterMap Segment.path?

/-- The relations that a template names in its hops, and those that the alternatives of its anchor
end on. Hops further to the front of an anchor do not count. -/
def namedRelations (template : String) (anchor : Option String) : List String :=
  ((templatePaths template).flatMap Path.steps ++ anchor.toList.flatMap anchorHops).map Hop.relation

/-- The fields that a template names. -/
def namedFields (template : String) : List String :=
  (templatePaths template).filterMap fun path => path.terminal.fieldName?

namespace Linker

/-- The entity types in the domain and the range of a relation; none if it is not registered. -/
def ends (linker : Linker) (relation : String) : List String :=
  match linker.registry.relation? relation with
  | some entry => entry.domain ++ entry.range
  | none => []

/-- The types that have to do with a template: its owner, the relations that it and its anchor
name, and the entity types at their ends. -/
def reach (linker : Linker) (owner : TypeRef) (template : String) (anchor : Option String) :
    List TypeRef :=
  owner :: (namedRelations template anchor).flatMap fun relation =>
    .relation relation :: (linker.ends relation).map .entity

variable {linker other : Linker} {owner type : TypeRef} {template : String} {anchor : Option String}

/-! ## What is read is in reach -/

theorem mem_namedRelations_of_step {path : Path} {hop : Hop} (hpath : path ∈ templatePaths template)
    (h : hop ∈ path.steps) : hop.relation ∈ namedRelations template anchor :=
  List.mem_map_of_mem (List.mem_append_left _ (List.mem_flatMap.2 ⟨path, hpath, h⟩))

theorem mem_namedRelations_of_anchor {base : String} {hop : Hop} (h : hop ∈ anchorHops base) :
    hop.relation ∈ namedRelations template (some base) :=
  List.mem_map_of_mem (List.mem_append_right _ (List.mem_flatMap.2 ⟨base, by simp, h⟩))

theorem relation_mem_reach {relation : String} (h : relation ∈ namedRelations template anchor) :
    .relation relation ∈ linker.reach owner template anchor :=
  List.mem_cons_of_mem _ (List.mem_flatMap.2 ⟨relation, h, List.mem_cons_self⟩)

theorem mem_reach_of_arrives {hop : Hop} (h : hop.relation ∈ namedRelations template anchor)
    (harrives : hop.Arrives linker.registry type) : type ∈ linker.reach owner template anchor := by
  obtain ⟨entry, hentry, target, htarget, rfl⟩ := harrives
  have hend : target ∈ linker.ends hop.relation := by
    rw [ends, hentry]
    cases hdirection : hop.direction with
    | forward =>
        rw [hdirection] at htarget
        exact List.mem_append_right _ htarget
    | inverse =>
        rw [hdirection] at htarget
        exact List.mem_append_left _ htarget
  exact List.mem_cons_of_mem _ (List.mem_flatMap.2
    ⟨hop.relation, h, List.mem_cons_of_mem _ (List.mem_map_of_mem hend)⟩)

theorem mem_reach_of_mem_types (h : type ∈ (linker.scope owner anchor).types) :
    type ∈ linker.reach owner template anchor := by
  cases anchor with
  | none =>
      obtain rfl := List.mem_singleton.1 h
      exact List.mem_cons_self
  | some base =>
      obtain ⟨hop, hhop, h⟩ := List.mem_flatMap.1 h
      obtain ⟨target, htarget, rfl⟩ := List.mem_map.1 h
      rw [targets] at htarget
      split at htarget
      · next entry hentry =>
          exact mem_reach_of_arrives (mem_namedRelations_of_anchor hhop)
            ⟨entry, hentry, target, htarget, rfl⟩
      · cases htarget

theorem mem_reach_of_mem_relations {relation : String}
    (h : relation ∈ (linker.scope owner anchor).relations) :
    .relation relation ∈ linker.reach owner template anchor := by
  cases anchor with
  | none =>
      obtain ⟨kind, name⟩ := owner
      cases kind with
      | entity => cases h
      | relation =>
          obtain rfl := List.mem_singleton.1 h
          exact List.mem_cons_self
  | some base =>
      obtain ⟨hop, hhop, rfl⟩ := List.mem_map.1 h
      exact relation_mem_reach (mem_namedRelations_of_anchor hhop)

theorem mem_reach_of_leads {path : Path} (hpath : path ∈ templatePaths template)
    (h : path.Leads linker.registry (linker.scope owner anchor) type) :
    type ∈ linker.reach owner template anchor := by
  unfold Path.Leads at h
  split at h
  · exact mem_reach_of_mem_types h
  · next hop hlast =>
      have hstep : hop ∈ path.steps := List.mem_append_left _ (List.mem_of_getLast? hlast)
      exact mem_reach_of_arrives (mem_namedRelations_of_step hpath hstep) h

/-- The types whose fields a path of a template may name are in the reach of the template. -/
theorem mem_reach_of_reaches {path : Path} (hpath : path ∈ templatePaths template)
    (h : path.Reaches linker.registry (linker.scope owner anchor) type) :
    type ∈ linker.reach owner template anchor := by
  unfold Path.Reaches at h
  split at h
  · obtain ⟨relation, hrelation, rfl⟩ := h
    exact mem_reach_of_mem_relations hrelation
  · next hop property hterminal =>
      have hstep : hop ∈ path.steps := by simp [Path.steps, hterminal, Terminal.hop?]
      rw [h]
      exact relation_mem_reach (mem_namedRelations_of_step hpath hstep)
  · exact mem_reach_of_leads hpath h

/-! ## Linkers that agree -/

theorem scope_congr
    (h : ∀ hop ∈ anchor.toList.flatMap anchorHops,
      other.registry.relation? hop.relation = linker.registry.relation? hop.relation) :
    other.scope owner anchor = linker.scope owner anchor := by
  cases anchor with
  | none => rfl
  | some base =>
      have htypes : ((anchorHops base).flatMap fun hop => (other.targets hop).map TypeRef.entity) =
          (anchorHops base).flatMap fun hop => (linker.targets hop).map TypeRef.entity := by
        refine List.flatMap_congr fun hop hhop => ?_
        rw [targets, targets, h hop (List.mem_flatMap.2 ⟨base, by simp, hhop⟩)]
      rw [scope, scope, htypes]

variable {scope : Scope} {path : Path}
  (hrelations : ∀ hop ∈ path.steps,
    other.registry.relation? hop.relation = linker.registry.relation? hop.relation)
  (hfields : ∀ type, path.Reaches linker.registry scope type →
    ∀ name ∈ path.terminal.fieldName?,
      other.symbols.fieldId? type name = linker.symbols.fieldId? type name)

include hrelations hfields

theorem terminalTexts_congr (htype : path.Leads linker.registry scope type) :
    other.terminalTexts scope type path.terminal =
      linker.terminalTexts scope type path.terminal := by
  have hhop : ∀ hop ∈ path.terminal.hop?,
      other.registry.relation? hop.relation = linker.registry.relation? hop.relation :=
    fun hop hhop => hrelations hop (List.mem_append_right _ (Option.mem_toList.2 hhop))
  unfold Path.Reaches at hfields
  cases hterminal : path.terminal with
  | ownProperty property =>
      rw [hterminal] at hfields
      refine List.filterMap_congr fun relation hrelation => ?_
      rw [hfields _ ⟨relation, hrelation, rfl⟩ property rfl]
  | hopProperty hop property =>
      rw [hterminal] at hhop hfields
      rw [terminalTexts, terminalTexts, hhop hop rfl, hfields _ rfl property rfl]
  | hop hop =>
      rw [hterminal] at hhop
      rw [terminalTexts, terminalTexts, hhop hop rfl]
  | displayName | entityTypeName => rfl
  | field name =>
      rw [hterminal] at hfields
      rw [terminalTexts, terminalTexts, hfields type htype name rfl]

/-- A path has the same variants where the relations of its hops are registered alike and the field
that it names has the same ids on the types that it reaches. -/
theorem variants_congr : other.variants path scope = linker.variants path scope := by
  have hhops : ∀ hop ∈ path.hops,
      other.registry.relation? hop.relation = linker.registry.relation? hop.relation :=
    fun hop hhop => hrelations hop (List.mem_append_left _ hhop)
  rw [variants, variants, followAll_congr hhops]
  cases hfollow : linker.followAll path.hops (scope.types.map fun type => ⟨type, []⟩) with
  | none => rfl
  | some frontier =>
      refine congrArg distinct (List.flatMap_congr fun reached hreached => ?_)
      rw [terminalTexts_congr hrelations hfields (leads_of_followAll hfollow hreached)]

end Linker

/-- The texts that segments become depend on the variants of their own paths alone. -/
theorem fillings_congr {variants variants' : Path → List String} {segments : List Segment}
    (h : ∀ path ∈ segments.filterMap Segment.path?, variants path = variants' path) :
    fillings variants segments = fillings variants' segments := by
  rw [← map_fillPaths_combinations, ← map_fillPaths_combinations, List.map_congr_left h]

namespace Linker

variable {linker other : Linker} {owner : TypeRef} {template : String} {anchor : Option String}

theorem substitute_congr
    (h : ∀ path ∈ templatePaths template,
      other.variants path (other.scope owner anchor) =
        linker.variants path (linker.scope owner anchor)) :
    other.substitute owner template anchor = linker.substitute owner template anchor := by
  have htexts : ((Alternatives.pieces template).map Segment.ofString).flatMap
        (fillings (other.variants · (other.scope owner anchor))) =
      ((Alternatives.pieces template).map Segment.ofString).flatMap
        (fillings (linker.variants · (linker.scope owner anchor))) := by
    refine List.flatMap_congr fun segments hsegments => fillings_congr fun path hpath => ?_
    exact h path (List.mem_flatMap.2 ⟨segments, hsegments, hpath⟩)
  have hlost : ((distinct (templatePaths template)).filter fun path =>
        (other.variants path (other.scope owner anchor)).isEmpty) =
      (distinct (templatePaths template)).filter fun path =>
        (linker.variants path (linker.scope owner anchor)).isEmpty := by
    refine List.filter_congr fun path hpath => ?_
    rw [h path (mem_distinct.1 hpath)]
  unfold templatePaths at hlost
  rw [substitute_eq_fillings, substitute_eq_fillings, htexts, hlost]

/-- A template comes to the same with two linkers that agree on the relations it names and, within
its reach, on the fields it names. -/
theorem substitute_eq_of_agree
    (hrelations : ∀ name ∈ namedRelations template anchor,
      other.registry.relation? name = linker.registry.relation? name)
    (hfields : ∀ type ∈ linker.reach owner template anchor, ∀ name ∈ namedFields template,
      other.symbols.fieldId? type name = linker.symbols.fieldId? type name) :
    other.substitute owner template anchor = linker.substitute owner template anchor := by
  have hscope : other.scope owner anchor = linker.scope owner anchor := by
    refine scope_congr fun hop hhop => hrelations _ ?_
    exact List.mem_map_of_mem (List.mem_append_right _ hhop)
  refine substitute_congr fun path hpath => ?_
  rw [hscope]
  refine variants_congr (fun hop hhop => ?_) fun type htype name hname => ?_
  · exact hrelations _ (mem_namedRelations_of_step hpath hhop)
  · exact hfields type (mem_reach_of_reaches hpath htype) name
      (List.mem_filterMap.2 ⟨path, hpath, hname⟩)

/-- What becomes of a template is decided within its reach. Two linkers that have the same entries
of the relations named and the same lookups of all types in reach give the same text, count the
same paths and leave the same ones unresolved. So no lookup of a type out of reach matters, whether
it is published or changed, nor the entry of a relation that is not named, nor a field that is not
named, be it of a type in reach. -/
theorem substitute_reads_reach (linker : Linker) (owner : TypeRef) (template : String)
    (anchor : Option String) :
    let result := linker.substitute owner template anchor
    let named := namedRelations template anchor
    let reach := linker.reach owner template anchor
    (∀ other : Linker,
      (∀ name ∈ named, other.registry.relation? name = linker.registry.relation? name) →
      (∀ type ∈ reach, other.symbols.lookup? type = linker.symbols.lookup? type) →
      other.substitute owner template anchor = result) ∧
    (∀ type lookup, type ∉ reach →
      { linker with symbols := linker.symbols.publish type lookup }.substitute owner template
        anchor = result) ∧
    (∀ table name entry, linker.registry.relations = some table → name ∉ named →
      { linker with registry.relations := some (table.insert name entry) }.substitute owner template
        anchor = result) ∧
    (∀ type lookup name id, linker.symbols.lookup? type = some lookup →
      name ∉ namedFields template →
      { linker with symbols := linker.symbols.publish type (lookup.insert name id) }.substitute owner
        template anchor = result) := by
  intro result named reach
  have hreads : ∀ other : Linker,
      (∀ name ∈ named, other.registry.relation? name = linker.registry.relation? name) →
      (∀ type ∈ reach, other.symbols.lookup? type = linker.symbols.lookup? type) →
      other.substitute owner template anchor = result := by
    intro other hrelations hlookups
    refine substitute_eq_of_agree hrelations fun type htype name _ => ?_
    rw [SymbolTable.fieldId?, SymbolTable.fieldId?, hlookups type htype]
  refine ⟨hreads, fun type lookup hout => ?_, fun table name entry htable hout => ?_,
    fun type lookup name id hlookup hout => ?_⟩
  · refine hreads _ (fun _ _ => rfl) fun other hother => ?_
    have hne : other ≠ type := fun heq => hout (heq ▸ hother)
    exact SortedMap.find?_insert_of_ne hne _ _
  · refine hreads _ (fun other hother => ?_) fun _ _ => rfl
    have hne : other ≠ name := fun heq => hout (heq ▸ hother)
    rw [Registry.relation?, Registry.relation?, htable]
    exact SortedMap.find?_insert_of_ne hne _ _
  · refine substitute_eq_of_agree (fun _ _ => rfl) fun other _ asked hasked => ?_
    have hne : asked ≠ name := fun heq => hout (heq ▸ hasked)
    by_cases hother : other = type
    · subst hother
      have hpublished : (linker.symbols.publish other (lookup.insert name id)).lookup? other =
          some (lookup.insert name id) := SortedMap.find?_insert_self ..
      rw [SymbolTable.fieldId?, SymbolTable.fieldId?, hpublished, hlookup]
      exact SortedMap.find?_insert_of_ne hne _ _
    · have hkept : (linker.symbols.publish type (lookup.insert name id)).lookup? other =
          linker.symbols.lookup? other := SortedMap.find?_insert_of_ne hother _ _
      rw [SymbolTable.fieldId?, SymbolTable.fieldId?, hkept]

/-- Shops, which have names as well, stock books. -/
def citationsAndShops : Linker where
  registry := { relations := citations.registry.relations.map fun table =>
    table.insert "stocks" { id := "R3", domain := ["shop"], range := ["book"] } }
  symbols := citations.symbols.publish (.entity "shop") (.ofList [("name", "S1")])

/-- Whoever wrote what the books of an author cite is found whether or not there are shops, and
whether or not it is known when authors were born. -/
theorem cited_authors_without_shops :
    let author : TypeRef := .entity "author"
    let template := "$ri_wrote->$name $||$ $title"
    let anchor := some "$r_wrote->$r_cites"
    let found : Substitution := ⟨"$ri_R1->$N1 $||$ $ri_R1->$N2", 2, ["$title"]⟩
    let births := citations.symbols.publish author
      ((FieldLookup.ofList [("name", "N1")]).insert "born" "N3")
    namedRelations template anchor = ["wrote", "cites"] ∧ namedFields template = ["name", "title"] ∧
      .entity "shop" ∉ citations.reach author template anchor ∧
      citations.substitute author template anchor = found ∧
      citationsAndShops.substitute author template anchor = found ∧
      { citations with symbols := citationsAndShops.symbols }.substitute author template anchor =
        found ∧
      { citations with registry := citationsAndShops.registry }.substitute author template anchor =
        found ∧
      { citations with symbols := births }.substitute author template anchor = found := by
  intro author template anchor found births
  have hnamed : namedRelations template anchor = ["wrote", "cites"] := by decide +kernel
  have hfields : namedFields template = ["name", "title"] := by decide +kernel
  have hshop : .entity "shop" ∉ citations.reach author template anchor := by decide +kernel
  have hfound : citations.substitute author template anchor = found := by decide +kernel
  obtain ⟨hagree, hpublish, hinsert, hfield⟩ :=
    citations.substitute_reads_reach author template anchor
  rw [hfound] at hagree hpublish hinsert hfield
  have hstocks : "stocks" ∉ namedRelations template anchor := by rw [hnamed]; decide
  have hnames : citations.symbols.lookup? author = some (.ofList [("name", "N1")]) :=
    (SortedMap.find?_insert_of_ne (by decide) _ _).trans (SortedMap.find?_insert_self ..)
  have hborn : "born" ∉ namedFields template := by rw [hfields]; decide
  refine ⟨hnamed, hfields, hshop, hfound, ?_, ?_, ?_, ?_⟩
  · refine hagree _ (fun name hname => ?_) fun type htype => ?_
    · have hne : name ≠ "stocks" := fun heq => hstocks (heq ▸ hname)
      exact SortedMap.find?_insert_of_ne hne _ _
    · have hne : type ≠ .entity "shop" := fun heq => hshop (heq ▸ htype)
      exact SortedMap.find?_insert_of_ne hne _ _
  · exact hpublish _ _ hshop
  · exact hinsert _ _ _ rfl hstocks
  · exact hfield _ _ _ _ hnames hborn

end Linker

end SchemaLink
