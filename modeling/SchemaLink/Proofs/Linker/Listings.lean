import SchemaLink.Proofs.Linker.Anchors
import SchemaLink.Proofs.Linker.Extension

/-! # Other listings

The types and relations in scope, the ends of relations and the alternatives of an anchor stand in
lists. Another order, or repetitions, may change the order of variants and nothing else. What is
listed again behind everything else changes nothing at all. -/

namespace SchemaLink

/-! ## Lists with the same items -/

section Items

variable {α : Type}

/-- The same items, in whatever order and however often. -/
def SameItems (items other : List α) : Prop := ∀ item, item ∈ items ↔ item ∈ other

/-- The same list, behind which some of its items are listed again. -/
def ListsAgain (items other : List α) : Prop := ∃ again, again ⊆ items ∧ other = items ++ again

theorem SameItems.symm {items other : List α} (h : SameItems items other) :
    SameItems other items := fun item => (h item).symm

theorem SameItems.subset {items other : List α} (h : SameItems items other) : items ⊆ other :=
  fun item hitem => (h item).1 hitem

theorem sameItems_of_subset {items other : List α} (h : items ⊆ other) (h' : other ⊆ items) :
    SameItems items other := fun _ => ⟨fun hitem => h hitem, fun hitem => h' hitem⟩

theorem ListsAgain.distinct_eq [BEq α] [LawfulBEq α] {items other : List α}
    (h : ListsAgain items other) : distinct items = distinct other := by
  obtain ⟨again, hagain, rfl⟩ := h
  exact (distinct_append_of_subset hagain).symm

end Items

/-! ## Registries and scopes that are listed otherwise -/

section Relisted

variable (r : ∀ {α : Type}, List α → List α → Prop)

/-- A relation with its ends listed otherwise. -/
structure RelationEntry.Relisted (entry other : RelationEntry) : Prop where
  id : other.id = entry.id
  domain : r entry.domain other.domain
  range : r entry.range other.range

/-- The same relations, with their ends listed otherwise. -/
def Registry.Relisted (registry other : Registry) : Prop :=
  ∀ name, Option.Rel (RelationEntry.Relisted r) (registry.relation? name) (other.relation? name)

structure Linker.Relisted (linker other : Linker) : Prop where
  registry : linker.registry.Relisted r other.registry
  symbols : other.symbols = linker.symbols

structure Scope.Relisted (scope other : Scope) : Prop where
  types : r scope.types other.types
  relations : r scope.relations other.relations

end Relisted

variable {r : ∀ {α : Type}, List α → List α → Prop}

theorem RelationEntry.Relisted.targets {entry other : RelationEntry} (h : entry.Relisted r other)
    (direction : Direction) : r (entry.targets direction) (other.targets direction) := by
  cases direction with
  | forward => exact h.range
  | inverse => exact h.domain

/-- A relation is either registered on both sides or on neither. -/
theorem Registry.Relisted.cases {registry other : Registry} (h : registry.Relisted r other)
    (name : String) :
    (registry.relation? name = none ∧ other.relation? name = none) ∨
      ∃ entry entry', registry.relation? name = some entry ∧ other.relation? name = some entry' ∧
        entry.Relisted r entry' := by
  have hentry := h name
  generalize registry.relation? name = found at hentry ⊢
  generalize other.relation? name = found' at hentry ⊢
  cases hentry with
  | some hentry => exact .inr ⟨_, _, rfl, rfl, hentry⟩
  | none => exact .inl ⟨rfl, rfl⟩

namespace Linker

variable {linker other : Linker}

/-! ## The same variants -/

theorem Relisted.symm (h : linker.Relisted SameItems other) : other.Relisted SameItems linker where
  registry name := by
    rcases h.registry.cases name with ⟨hnone, hnone'⟩ | ⟨entry, entry', hentry, hentry', hends⟩
    · rw [hnone, hnone']
      exact .none
    · rw [hentry, hentry']
      exact .some ⟨hends.id.symm, hends.domain.symm, hends.range.symm⟩
  symbols := h.symbols.symm

theorem Relisted.extends (h : linker.Relisted SameItems other) : other.Extends linker where
  registry name found hfound := by
    rcases h.registry.cases name with ⟨hnone, -⟩ | ⟨entry, entry', hentry, hentry', hends⟩
    · rw [hnone] at hfound
      cases hfound
    · obtain rfl := Option.some.inj (hentry.symm.trans hfound)
      exact ⟨entry', hentry', hends.id, hends.domain.subset, hends.range.subset⟩
  symbols := by
    rw [h.symbols]
    exact fun _ lookup hlookup => ⟨lookup, hlookup, fun _ _ hid => hid⟩

/-- What is listed otherwise has the same variants. -/
theorem Relisted.sameItems_variants (h : linker.Relisted SameItems other) {scope scope' : Scope}
    (hscope : scope.Relisted SameItems scope') (path : Path) :
    SameItems (linker.variants path scope) (other.variants path scope') := by
  have hwithin : scope.Within scope' := ⟨hscope.types.subset, hscope.relations.subset⟩
  have hwithin' : scope'.Within scope := ⟨hscope.types.symm.subset, hscope.relations.symm.subset⟩
  exact sameItems_of_subset (h.extends.variants hwithin path)
    (h.symm.extends.variants hwithin' path)

/-! ## The same variants in the same order -/

theorem Relisted.segments?_eq (h : linker.Relisted r other) (hops : List Hop) :
    other.segments? hops = linker.segments? hops := by
  unfold segments?
  congr 1
  funext hop
  rcases h.registry.cases hop.relation with
    ⟨hnone, hnone'⟩ | ⟨entry, entry', hentry, hentry', hends⟩
  · rw [hnone, hnone']
  · rw [hentry, hentry', Option.map_some, Option.map_some, hends.id]

/-- The id forms of terminals depend on the ids of relations, whatever their ends are. -/
theorem Relisted.terminalTexts_eq (h : linker.Relisted r other) (scope : Scope) (type : TypeRef)
    (terminal : Terminal) :
    other.terminalTexts scope type terminal = linker.terminalTexts scope type terminal := by
  cases terminal with
  | ownProperty | displayName | entityTypeName | field => simp only [terminalTexts, h.symbols]
  | hop hop =>
      rcases h.registry.cases hop.relation with
        ⟨hnone, hnone'⟩ | ⟨entry, entry', hentry, hentry', hends⟩
      · simp only [terminalTexts, hnone, hnone']
      · simp only [terminalTexts, hentry, hentry', RelationEntry.hopText, hends.id]
  | hopProperty hop property =>
      rcases h.registry.cases hop.relation with
        ⟨hnone, hnone'⟩ | ⟨entry, entry', hentry, hentry', hends⟩
      · simp only [terminalTexts, h.symbols, hnone, hnone']
      · cases hid : linker.symbols.fieldId? (.relation hop.relation) property <;>
          simp only [terminalTexts, h.symbols, hentry, hentry', hid, RelationEntry.hopText,
            hends.id]

theorem distinct_terminalTexts {scope scope' : Scope} (h : scope.Relisted ListsAgain scope')
    (type : TypeRef) (terminal : Terminal) :
    distinct (linker.terminalTexts scope type terminal) =
      distinct (linker.terminalTexts scope' type terminal) := by
  cases terminal with
  | ownProperty property =>
      simp only [terminalTexts, List.filterMap_eq_flatMap_toList]
      exact distinct_flatMap_congr h.relations.distinct_eq fun _ => rfl
  | hopProperty | hop | displayName | entityTypeName | field => rfl

theorem Relisted.distinct_targets (h : linker.Relisted ListsAgain other) (hop : Hop) :
    distinct (linker.targets hop) = distinct (other.targets hop) := by
  unfold targets
  rcases h.registry.cases hop.relation with
    ⟨hnone, hnone'⟩ | ⟨entry, entry', hentry, hentry', hends⟩
  · rw [hnone, hnone']
  · rw [hentry, hentry']
    exact (hends.targets hop.direction).distinct_eq

theorem Relisted.distinct_walks (h : linker.Relisted ListsAgain other) (hops : List Hop) :
    distinct (linker.walks hops) = distinct (other.walks hops) := by
  induction hops with
  | nil => rfl
  | cons hop hops ih =>
      refine distinct_flatMap_congr (h.distinct_targets hop) fun target => ?_
      simp only [List.map_eq_flatMap]
      exact distinct_flatMap_congr ih fun _ => rfl

/-- What is listed again behind everything else leads to the same variants in the same order. -/
theorem Relisted.variants_eq (h : linker.Relisted ListsAgain other) {scope scope' : Scope}
    (hscope : scope.Relisted ListsAgain scope') (path : Path) :
    other.variants path scope' = linker.variants path scope := by
  rw [variants_eq_distinct, variants_eq_distinct, walkTexts, walkTexts, h.segments?_eq]
  cases linker.segments? path.hops with
  | none => rfl
  | some segments =>
      dsimp only
      refine distinct_flatMap_congr hscope.types.distinct_eq.symm fun start => ?_
      refine distinct_flatMap_congr (h.distinct_walks path.hops).symm fun picks => ?_
      rw [h.terminalTexts_eq]
      simp only [List.map_eq_flatMap]
      exact distinct_flatMap_congr (distinct_terminalTexts hscope _ _).symm fun _ => rfl

end Linker

/-! ## Anchors -/

namespace Linker

variable {linker other : Linker}

/-- An anchor whose alternatives are paths may list them otherwise. -/
theorem Relisted.sameItems_survivors (h : linker.Relisted SameItems other) {base : String}
    {alternatives : List String}
    (hpaths : ∀ text ∈ Alternatives.pieces base, (Path.parse? text).isSome)
    (hsame : SameItems (Alternatives.pieces base) alternatives) (owner : TypeRef)
    (template : String) :
    SameItems (linker.survivors owner template (some base))
      (other.survivors owner template (some (Alternatives.join alternatives))) := by
  have hpieces : Alternatives.pieces (Alternatives.join alternatives) = alternatives := by
    refine (Alternatives.separable_of_blank_not_mem ?_ ?_).pieces_join
    · rintro rfl
      exact Alternatives.pieces_ne_nil base (List.subset_nil.1 hsame.subset)
    · intro text htext
      obtain ⟨path, hparse⟩ := Option.isSome_iff_exists.1 (hpaths text (hsame.symm.subset htext))
      obtain ⟨hwellFormed, rfl⟩ := Path.of_parse? hparse
      exact hwellFormed.blank_not_mem
  rw [← hpieces] at hsame
  exact sameItems_of_subset
    (survivors_subset (h.extends.variants (h.extends.scope_anchored hsame.subset owner)) template)
    (survivors_subset
      (h.symm.extends.variants (h.symm.extends.scope_anchored hsame.symm.subset owner)) template)

/-- The variants of a path do not depend on how the types and relations in scope and the ends of
relations are listed, and their order does not depend on what is listed again behind everything
else. The alternatives left of a template do not depend on how the paths it is anchored at are
listed, either. -/
theorem variants_independent_of_listing :
    (linker.Relisted SameItems other → ∀ scope scope' : Scope, scope.Relisted SameItems scope' →
      ∀ path, SameItems (linker.variants path scope) (other.variants path scope')) ∧
    (linker.Relisted ListsAgain other → ∀ scope scope' : Scope, scope.Relisted ListsAgain scope' →
      ∀ path, other.variants path scope' = linker.variants path scope) ∧
    (linker.Relisted SameItems other → ∀ owner template base alternatives,
      (∀ text ∈ Alternatives.pieces base, (Path.parse? text).isSome) →
      SameItems (Alternatives.pieces base) alternatives →
      let anchor := some base
      let anchor' := some (Alternatives.join alternatives)
      let before := linker.substitute owner template anchor
      let after := other.substitute owner template anchor'
      after.tokens = before.tokens ∧
      (before.tokens ≠ 0 →
        before.text = Alternatives.join (linker.survivors owner template anchor) ∧
        after.text = Alternatives.join (other.survivors owner template anchor') ∧
        SameItems (linker.survivors owner template anchor)
          (other.survivors owner template anchor'))) := by
  refine ⟨fun h scope scope' hscope path => h.sameItems_variants hscope path,
    fun h scope scope' hscope path => h.variants_eq hscope path, ?_⟩
  intro h owner template base alternatives hpaths hsame anchor anchor' before after
  have htokens : after.tokens = before.tokens := tokens_substitute_eq ..
  refine ⟨htokens, fun hne => ⟨text_substitute _ hne, text_substitute _ ?_, ?_⟩⟩
  · exact htokens ▸ hne
  · exact h.sameItems_survivors hpaths hsame owner template

/-! ## Works in another order -/

/-- Some types write some others. Authors have names, and books and articles have titles. -/
def writings (writers works : List String) : Linker where
  registry := { relations := some (.ofList [
    ("wrote", { id := "R1", domain := writers, range := works })]) }
  symbols := ((SymbolTable.empty.publish (.entity "article") (.ofList [("title", "A1")])).publish
    (.entity "author") (.ofList [("name", "N1")])).publish
    (.entity "book") (.ofList [("title", "B1")])

theorem writings_relisted {writers writers' works works' : List String}
    (hwriters : r writers writers') (hworks : r works works') :
    (writings writers works).Relisted r (writings writers' works') where
  registry name := by
    by_cases hname : name = "wrote"
    · subst hname
      have hentry (entry : RelationEntry) :
          (SortedMap.ofList [("wrote", entry)]).find? "wrote" = some entry :=
        SortedMap.find?_insert_self ..
      simp only [writings, Registry.relation?, Option.bind_some, hentry]
      exact .some ⟨rfl, hwriters, hworks⟩
    · have hnone (entry : RelationEntry) :
          (SortedMap.ofList [("wrote", entry)]).find? name = none :=
        SortedMap.find?_insert_of_ne hname SortedMap.empty entry
      simp only [writings, Registry.relation?, Option.bind_some, hnone]
      exact .none
  symbols := rfl

/-- The titles of works come in the order of the works, where a work that is listed again changes
nothing; and an anchor may list its paths in another order. -/
theorem titles_of_relisted_works :
    let library := writings ["author", "editor"] ["book", "article"]
    let turned := writings ["editor", "author"] ["article", "book", "article"]
    let longer := writings ["author", "editor"] ["book", "article", "book"]
    let titles : Path := ⟨[⟨.forward, "wrote"⟩], .field "title"⟩
    let scope : Scope := ⟨[.entity "author"], []⟩
    let twice : Scope := ⟨[.entity "author", .entity "author"], []⟩
    let base := "$r_wrote $||$ $ri_wrote"
    let alternatives := ["$ri_wrote", "$r_wrote", "$ri_wrote"]
    let template := "$title $||$ $name"
    library.Relisted SameItems turned ∧ library.Relisted ListsAgain longer ∧
      scope.Relisted SameItems twice ∧ scope.Relisted ListsAgain twice ∧
      (∀ text ∈ Alternatives.pieces base, (Path.parse? text).isSome) ∧
      SameItems (Alternatives.pieces base) alternatives ∧
      library.variants titles scope = ["$r_R1->$B1", "$r_R1->$A1"] ∧
      turned.variants titles twice = ["$r_R1->$A1", "$r_R1->$B1"] ∧
      SameItems (library.variants titles scope) (turned.variants titles twice) ∧
      longer.variants titles twice = ["$r_R1->$B1", "$r_R1->$A1"] ∧
      (library.substitute (.entity "author") template (some base)).text =
        "$B1 $||$ $A1 $||$ $N1" ∧
      SameItems (library.survivors (.entity "author") template (some base))
        (turned.survivors (.entity "author") template (some (Alternatives.join alternatives))) := by
  intro library turned longer titles scope twice base alternatives template
  have hturned : library.Relisted SameItems turned :=
    writings_relisted (by simp [SameItems, or_comm]) (by simp [SameItems, or_comm])
  have hlonger : library.Relisted ListsAgain longer :=
    writings_relisted ⟨[], by simp⟩ ⟨["book"], by simp⟩
  have hsame : scope.Relisted SameItems twice := ⟨by simp [SameItems, scope, twice], fun _ => .rfl⟩
  have htwice : scope.Relisted ListsAgain twice :=
    ⟨⟨[.entity "author"], by simp [scope, twice]⟩, ⟨[], by simp [scope, twice]⟩⟩
  have hpieces : Alternatives.pieces base = ["$r_wrote", "$ri_wrote"] := by decide +kernel
  have hpaths : ∀ text ∈ Alternatives.pieces base, (Path.parse? text).isSome := by
    rw [hpieces]
    decide +kernel
  have halternatives : SameItems (Alternatives.pieces base) alternatives := by
    rw [hpieces]
    simp [SameItems, alternatives, or_comm]
  have hvariants : library.variants titles scope = ["$r_R1->$B1", "$r_R1->$A1"] := by
    decide +kernel
  have htext : (library.substitute (.entity "author") template (some base)).text =
      "$B1 $||$ $A1 $||$ $N1" := by decide +kernel
  have htokens : (library.substitute (.entity "author") template (some base)).tokens ≠ 0 := by
    decide +kernel
  obtain ⟨hitems, -, hsubstitute⟩ := @variants_independent_of_listing library turned
  obtain ⟨-, hagain, -⟩ := @variants_independent_of_listing library longer
  obtain ⟨-, hsurvivors⟩ :=
    hsubstitute hturned (.entity "author") template base alternatives hpaths halternatives
  exact ⟨hturned, hlonger, hsame, htwice, hpaths, halternatives, hvariants, by decide +kernel,
    hitems hturned scope twice hsame titles, hvariants ▸ hagain hlonger scope twice htwice titles,
    htext, (hsurvivors htokens).2.2⟩

end Linker

end SchemaLink
