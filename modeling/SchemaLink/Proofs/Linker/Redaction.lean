import SchemaLink.Proofs.Linker.FieldIds
import SchemaLink.Proofs.Linker.Templates
import SchemaLink.Proofs.SortedMap

/-! # Substitution without ids

Ids are written into templates and decide nothing. Whether a path has a variant, and whether
any text is left of a template, can be told as well when all published ids are struck out. -/

namespace SchemaLink

/-! ## Ids struck out -/

/-- A text struck out: one can still see whether there was any. -/
def redact (text : String) : String := if text = "" then "" else "*"

theorem redact_eq_iff {text other : String} :
    redact text = redact other ↔ (text = "" ↔ other = "") := by
  unfold redact
  by_cases htext : text = "" <;> by_cases hother : other = "" <;> simp [htext, hother]

theorem redact_redact (text : String) : redact (redact text) = redact text := by
  unfold redact
  split <;> rfl

/-- A lookup with the names that it binds and no ids. -/
def FieldLookup.redacted (lookup : FieldLookup) : FieldLookup :=
  ⟨lookup.ids.mapWithKey fun _ _ => ""⟩

/-- The lookups of all types without ids. -/
def SymbolTable.redacted (symbols : SymbolTable) : SymbolTable :=
  ⟨symbols.lookups.mapWithKey fun _ lookup => lookup.redacted⟩

theorem FieldLookup.redacted_redacted (lookup : FieldLookup) :
    lookup.redacted.redacted = lookup.redacted := by
  rw [redacted, redacted, SortedMap.mapWithKey_mapWithKey]

theorem SymbolTable.redacted_redacted (symbols : SymbolTable) :
    symbols.redacted.redacted = symbols.redacted := by
  rw [redacted, redacted, SortedMap.mapWithKey_mapWithKey]
  simp only [FieldLookup.redacted_redacted]

theorem SymbolTable.fieldId?_redacted (symbols : SymbolTable) (type : TypeRef) (name : String) :
    symbols.redacted.fieldId? type name = (symbols.fieldId? type name).map fun _ => "" := by
  unfold fieldId? lookup? redacted
  rw [SortedMap.find?_mapWithKey]
  cases symbols.lookups.find? type with
  | none => rfl
  | some lookup => exact SortedMap.find?_mapWithKey _ _ _

/-- What became of a template, with its text struck out. -/
def Substitution.redacted (result : Substitution) : Substitution :=
  { result with text := redact result.text }

theorem Substitution.vanished_redacted (result : Substitution) :
    result.redacted.vanished = result.vanished := by
  have hempty : (redact result.text).isEmpty = result.text.isEmpty := by
    rw [Bool.eq_iff_iff, String.isEmpty_iff, String.isEmpty_iff]
    exact redact_eq_iff.1 (redact_redact result.text)
  rw [vanished, redacted, hempty]
  rfl

namespace Linker

/-- A linker that has the names of all fields, but no ids. -/
def redacted (linker : Linker) : Linker := { linker with symbols := linker.symbols.redacted }

/-! ## Variants of a path -/

variable (linker : Linker)

theorem followAll_redacted (hops : List Hop) (frontier : List Reached) :
    linker.redacted.followAll hops frontier = linker.followAll hops frontier := by
  refine followAll_congr (fun hop _ => ?_) frontier
  rfl

theorem terminalTexts_redacted (scope : Scope) (type : TypeRef) (terminal : Terminal) :
    linker.redacted.terminalTexts scope type terminal = [] ↔
      linker.terminalTexts scope type terminal = [] := by
  cases terminal with
  | ownProperty property =>
      simp [terminalTexts, redacted, SymbolTable.fieldId?_redacted, List.filterMap_eq_nil_iff]
  | hopProperty hop property =>
      simp only [terminalTexts, redacted, SymbolTable.fieldId?_redacted]
      cases linker.registry.relation? hop.relation <;>
        cases linker.symbols.fieldId? (.relation hop.relation) property <;> simp
  | field name =>
      simp only [terminalTexts, redacted, SymbolTable.fieldId?_redacted]
      cases linker.symbols.fieldId? type name <;> simp
  | hop | displayName | entityTypeName => rfl

/-- Whether there is a way to read a path does not depend on ids. -/
theorem variants_redacted (path : Path) (scope : Scope) :
    linker.redacted.variants path scope = [] ↔ linker.variants path scope = [] := by
  simp only [variants, followAll_redacted]
  cases linker.followAll path.hops (scope.types.map fun type => ⟨type, []⟩) with
  | none => rfl
  | some frontier =>
      simp only [distinct_eq_nil_iff, List.flatMap_eq_nil_iff, List.map_eq_nil_iff,
        terminalTexts_redacted]

theorem ne_empty_of_mem_terminalTexts {scope : Scope} {type : TypeRef} {terminal : Terminal}
    {text : String} (h : text ∈ linker.terminalTexts scope type terminal) : text ≠ "" := by
  have hhop : ∀ (entry : RelationEntry) (direction : Direction), entry.hopText direction ≠ "" := by
    intro entry direction
    simp [RelationEntry.hopText, Hop.text]
  cases terminal with
  | ownProperty property =>
      rcases List.mem_filterMap.1 h with ⟨relation, -, htext⟩
      rcases Option.map_eq_some_iff.1 htext with ⟨id, -, rfl⟩
      simp
  | hopProperty hop property =>
      simp only [terminalTexts] at h
      split at h
      · rw [List.mem_singleton.1 h]
        simp
      · cases h
  | hop hop =>
      simp only [terminalTexts] at h
      split at h
      · rw [List.mem_singleton.1 h]
        exact hhop _ _
      · cases h
  | displayName => rw [List.mem_singleton.1 h]; simp
  | entityTypeName => rw [List.mem_singleton.1 h]; simp
  | field name =>
      simp only [terminalTexts] at h
      split at h
      · rw [List.mem_singleton.1 h]
        simp
      · cases h

theorem ne_empty_of_mem_variants {path : Path} {scope : Scope} {variant : String}
    (h : variant ∈ linker.variants path scope) : variant ≠ "" := by
  rw [variants] at h
  split at h
  · cases h
  · rw [mem_distinct] at h
    rcases List.mem_flatMap.1 h with ⟨reached, -, h⟩
    rcases List.mem_map.1 h with ⟨last, hlast, rfl⟩
    obtain ⟨front, hfront⟩ := Text.exists_front_intercalate "->" reached.segments
    rw [hfront, Ne, String.append_eq_empty_iff]
    exact fun hboth => linker.ne_empty_of_mem_terminalTexts hlast hboth.2

end Linker

/-! ## Texts left of a template -/

section Fillings

variable {variants : Path → List String}

theorem fillings_eq_nil_iff {segments : List Segment} :
    fillings variants segments = [] ↔
      ∃ path ∈ segments.filterMap Segment.path?, variants path = [] := by
  induction segments with
  | nil => simp [fillings]
  | cons segment segments ih =>
      cases segment with
      | literal source => simp [fillings, ih, Segment.path?]
      | path path source =>
          have hpath : fillings variants (.path path source :: segments) = [] ↔
              variants path = [] ∨ fillings variants segments = [] := by
            rw [fillings, List.flatMap_eq_nil_iff]
            simp only [List.map_eq_nil_iff]
            by_cases hrest : fillings variants segments = []
            · simp [hrest]
            · simp [hrest, List.eq_nil_iff_forall_not_mem]
          have hpaths : (Segment.path path source :: segments).filterMap Segment.path? =
              path :: segments.filterMap Segment.path? := rfl
          rw [hpath, ih, hpaths, List.exists_mem_cons_iff]

/-- Segments leave no text if a path has no variant, or else if nothing is written in them. -/
theorem forall_fillings_eq_empty_iff (h : ∀ path, "" ∉ variants path) {segments : List Segment} :
    (∀ text ∈ fillings variants segments, text = "") ↔
      (∃ path ∈ segments.filterMap Segment.path?, variants path = []) ∨
        ∀ segment ∈ segments, segment = .literal "" := by
  induction segments with
  | nil => simp [fillings]
  | cons segment segments ih =>
      cases segment with
      | literal source =>
          have hpaths : (Segment.literal source :: segments).filterMap Segment.path? =
              segments.filterMap Segment.path? := rfl
          rw [hpaths, List.forall_mem_cons, fillings, List.forall_mem_map]
          by_cases hsource : source = ""
          · simp [hsource, ih]
          · rw [← fillings_eq_nil_iff, List.eq_nil_iff_forall_not_mem]
            simp [hsource]
      | path path source =>
          have htexts : ∀ text ∈ fillings variants (.path path source :: segments), text ≠ "" := by
            intro text htext
            rcases List.mem_flatMap.1 htext with ⟨variant, hvariant, htext⟩
            rcases List.mem_map.1 htext with ⟨rest, -, rfl⟩
            rw [Ne, String.append_eq_empty_iff]
            rintro ⟨rfl, -⟩
            exact h path hvariant
          rw [← fillings_eq_nil_iff, List.eq_nil_iff_forall_not_mem, List.forall_mem_cons]
          simp only [reduceCtorEq, false_and, or_false]
          exact forall₂_congr fun text htext => iff_false_intro (htexts text htext)

end Fillings

namespace Alternatives

theorem join_eq_empty_iff {texts : List String} (h : texts.Nodup) :
    join texts = "" ↔ ∀ text ∈ texts, text = "" := by
  match texts with
  | [] => simp [join]
  | [text] => simp [join]
  | first :: second :: texts =>
      have hjoin : join (first :: second :: texts) ≠ "" := by
        rw [join, String.intercalate_cons_cons]
        simp [String.append_eq_empty_iff, separator]
      have hdifferent : ¬ ∀ text ∈ first :: second :: texts, text = "" := by
        intro hempty
        obtain rfl := hempty first (by simp)
        obtain rfl := hempty second (by simp)
        simp at h
      exact iff_of_false hjoin hdifferent

theorem render_ofList_eq_empty_iff {texts : List String} :
    (ofList texts).render = "" ↔ ∀ text ∈ texts, text = "" := by
  rw [render, items_ofList, join_eq_empty_iff (nodup_distinct texts)]
  simp only [mem_distinct]

end Alternatives

/-! ## Substitution -/

namespace Linker

variable (linker : Linker) (owner : TypeRef) (template : String) (anchor : Option String)

/-- Substitution without the table that remembers variants. -/
theorem substitute_eq_fillings :
    let alternatives := (Alternatives.pieces template).map Segment.ofString
    let paths := alternatives.flatMap fun segments => segments.filterMap Segment.path?
    let variants := fun path => linker.variants path (linker.scope owner anchor)
    linker.substitute owner template anchor =
      if paths.isEmpty then .unchanged template
      else
        { text := (Alternatives.ofList (alternatives.flatMap (fillings variants))).render
          tokens := (distinct paths).length
          unresolved :=
            ((distinct paths).filter fun path => (variants path).isEmpty).map Path.text } := by
  intro alternatives paths variants
  have htable : paths.foldl (linker.remember (linker.scope owner anchor)) [] =
      VariantTable.ofPaths variants (distinct paths) :=
    linker.foldl_remember (linker.scope owner anchor) [] paths
  have htexts : alternatives.flatMap (VariantTable.ofPaths variants (distinct paths)).expansions =
      alternatives.flatMap (fillings variants) := by
    refine List.flatMap_congr fun segments hsegments => VariantTable.expansions_ofPaths ?_
    intro path hpath
    exact mem_distinct.2 (List.mem_flatMap.2 ⟨segments, hsegments, hpath⟩)
  have hsubstitute : linker.substitute owner template anchor =
      if paths.isEmpty then .unchanged template
      else
        { text := (Alternatives.ofList (alternatives.flatMap
            (VariantTable.ofPaths variants (distinct paths)).expansions)).render
          tokens := (VariantTable.ofPaths variants (distinct paths)).length
          unresolved := ((VariantTable.ofPaths variants (distinct paths)).filter
            fun entry => entry.2.isEmpty).map fun entry => entry.1.text } := by
    rw [← htable]
    rfl
  rw [hsubstitute, htexts, VariantTable.ofPaths, List.length_map, List.filter_map, List.map_map]
  rfl

/-- Without ids a template resolves the same paths, and it has text just if it has with them. -/
theorem redacted_substitute :
    (linker.redacted.substitute owner template anchor).redacted =
      (linker.substitute owner template anchor).redacted := by
  have hscope : linker.redacted.scope owner anchor = linker.scope owner anchor := by
    cases anchor <;> rfl
  have hempty : ∀ path, (linker.redacted.variants path (linker.scope owner anchor)).isEmpty =
      (linker.variants path (linker.scope owner anchor)).isEmpty := by
    intro path
    rw [Bool.eq_iff_iff, List.isEmpty_iff, List.isEmpty_iff, variants_redacted]
  have hnonempty : ∀ (linker : Linker) (scope : Scope) (path : Path),
      "" ∉ linker.variants path scope :=
    fun linker _ _ h => linker.ne_empty_of_mem_variants h rfl
  have htexts : ∀ segments : List Segment,
      (∀ text ∈ fillings (linker.redacted.variants · (linker.scope owner anchor)) segments,
        text = "") ↔
      ∀ text ∈ fillings (linker.variants · (linker.scope owner anchor)) segments, text = "" := by
    intro segments
    rw [forall_fillings_eq_empty_iff fun path => hnonempty _ _ path,
      forall_fillings_eq_empty_iff fun path => hnonempty _ _ path]
    simp only [variants_redacted]
  rw [substitute_eq_fillings, substitute_eq_fillings, hscope]
  split
  · rfl
  · simp only [Substitution.redacted, hempty, Substitution.mk.injEq, and_true, redact_eq_iff,
      Alternatives.render_ofList_eq_empty_iff, List.forall_mem_flatMap, htexts]

end Linker

end SchemaLink
