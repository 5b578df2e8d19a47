import SchemaLink.Proofs.Linker.Redaction
import SchemaLink.Proofs.Linker.Walks

/-! # Registries and symbols that are added to

More relations, more types at their ends and more fields lead to more variants and take none
away. So what is left of a template stays, and no further path of it is lost. -/

namespace SchemaLink

/-! ## Additions -/

/-- A relation that keeps its id and leads from and to the same types, if not more. -/
structure RelationEntry.Extends (later earlier : RelationEntry) : Prop where
  id : later.id = earlier.id
  domain : earlier.domain ⊆ later.domain
  range : earlier.range ⊆ later.range

/-- Every relation is still registered. -/
def Registry.Extends (later earlier : Registry) : Prop :=
  ∀ name entry, earlier.relation? name = some entry →
    ∃ entry', later.relation? name = some entry' ∧ entry'.Extends entry

/-- Every lookup is still published, and what it bound is bound as before. -/
def SymbolTable.Extends (later earlier : SymbolTable) : Prop :=
  ∀ type lookup, earlier.lookup? type = some lookup →
    ∃ lookup', later.lookup? type = some lookup' ∧
      ∀ name id, lookup.find? name = some id → lookup'.find? name = some id

structure Linker.Extends (later earlier : Linker) : Prop where
  registry : later.registry.Extends earlier.registry
  symbols : later.symbols.Extends earlier.symbols

/-- All that is in one scope is in the other. -/
structure Scope.Within (scope other : Scope) : Prop where
  types : scope.types ⊆ other.types
  relations : scope.relations ⊆ other.relations

theorem Scope.Within.refl (scope : Scope) : scope.Within scope :=
  ⟨List.Subset.refl _, List.Subset.refl _⟩

theorem RelationEntry.Extends.targets {later earlier : RelationEntry} (h : later.Extends earlier)
    (direction : Direction) : earlier.targets direction ⊆ later.targets direction := by
  cases direction with
  | forward => exact h.range
  | inverse => exact h.domain

theorem RelationEntry.Extends.hopText_eq {later earlier : RelationEntry}
    (h : later.Extends earlier) (direction : Direction) :
    later.hopText direction = earlier.hopText direction := by
  rw [hopText, hopText, h.id]

theorem SymbolTable.Extends.fieldId? {later earlier : SymbolTable} (h : later.Extends earlier)
    {type : TypeRef} {name id : String} (hid : earlier.fieldId? type name = some id) :
    later.fieldId? type name = some id := by
  rcases Option.bind_eq_some_iff.1 hid with ⟨lookup, hlookup, hfound⟩
  obtain ⟨lookup', hlookup', hbound⟩ := h type lookup hlookup
  exact Option.bind_eq_some_iff.2 ⟨lookup', hlookup', hbound name id hfound⟩

/-! ## Anchors -/

theorem mem_anchorHops {anchor : String} {hop : Hop} :
    hop ∈ anchorHops anchor ↔
      ∃ text ∈ Alternatives.pieces anchor, (Path.parse? text).bind Path.anchor? = some hop := by
  rw [anchorHops, Alternatives.parse, Alternatives.items_ofList, List.mem_filterMap]
  simp only [mem_distinct]

theorem anchorHops_subset {anchor anchor' : String}
    (h : Alternatives.pieces anchor ⊆ Alternatives.pieces anchor') :
    anchorHops anchor ⊆ anchorHops anchor' := by
  intro hop hhop
  obtain ⟨text, htext, hparse⟩ := mem_anchorHops.1 hhop
  exact mem_anchorHops.2 ⟨text, h htext, hparse⟩

/-! ## Variants that stay -/

namespace Linker

variable {earlier later : Linker} (h : later.Extends earlier)

include h

theorem Extends.targets (hop : Hop) : earlier.targets hop ⊆ later.targets hop := by
  intro target htarget
  unfold Linker.targets at htarget ⊢
  cases hentry : earlier.registry.relation? hop.relation with
  | none => rw [hentry] at htarget; cases htarget
  | some entry =>
      rw [hentry] at htarget
      obtain ⟨entry', hentry', hextends⟩ := h.registry _ entry hentry
      rw [hentry']
      exact hextends.targets hop.direction htarget

theorem Extends.scope_anchored {anchor anchor' : String}
    (hanchor : Alternatives.pieces anchor ⊆ Alternatives.pieces anchor') (owner : TypeRef) :
    (earlier.scope owner (some anchor)).Within (later.scope owner (some anchor')) where
  types type htype := by
    rcases List.mem_flatMap.1 htype with ⟨hop, hhop, htype⟩
    rcases List.mem_map.1 htype with ⟨target, htarget, rfl⟩
    exact List.mem_flatMap.2 ⟨hop, anchorHops_subset hanchor hhop,
      List.mem_map_of_mem (h.targets hop htarget)⟩
  relations := List.map_subset _ (anchorHops_subset hanchor)

theorem Extends.scope (owner : TypeRef) (anchor : Option String) :
    (earlier.scope owner anchor).Within (later.scope owner anchor) := by
  cases anchor with
  | none => exact .refl _
  | some anchor => exact h.scope_anchored (List.Subset.refl _) owner

theorem Extends.segments? {hops : List Hop} {segments : List String}
    (hsegments : earlier.segments? hops = some segments) :
    later.segments? hops = some segments := by
  induction hops generalizing segments with
  | nil => exact hsegments
  | cons hop hops ih =>
      rw [segments?_cons] at hsegments ⊢
      cases hentry : earlier.registry.relation? hop.relation with
      | none => rw [hentry] at hsegments; cases hsegments
      | some entry =>
          rw [hentry] at hsegments
          obtain ⟨rest, hrest, rfl⟩ := Option.map_eq_some_iff.1 hsegments
          obtain ⟨entry', hentry', hextends⟩ := h.registry _ entry hentry
          rw [hentry']
          dsimp only
          rw [ih hrest, hextends.id]
          rfl

theorem Extends.walks (hops : List Hop) : earlier.walks hops ⊆ later.walks hops := by
  induction hops with
  | nil => exact List.Subset.refl _
  | cons hop hops ih =>
      intro picks hpicks
      rcases List.mem_flatMap.1 hpicks with ⟨target, htarget, hpicks⟩
      rcases List.mem_map.1 hpicks with ⟨rest, hrest, rfl⟩
      exact List.mem_flatMap.2 ⟨target, h.targets hop htarget, List.mem_map_of_mem (ih hrest)⟩

theorem Extends.terminalTexts {scope scope' : Scope} (hscope : scope.Within scope')
    (type : TypeRef) (terminal : Terminal) :
    earlier.terminalTexts scope type terminal ⊆ later.terminalTexts scope' type terminal := by
  intro text htext
  cases terminal with
  | ownProperty property =>
      rcases List.mem_filterMap.1 htext with ⟨relation, hrelation, htext⟩
      obtain ⟨id, hid, rfl⟩ := Option.map_eq_some_iff.1 htext
      refine List.mem_filterMap.2 ⟨relation, hscope.relations hrelation, ?_⟩
      rw [h.symbols.fieldId? hid]
      rfl
  | hopProperty hop property =>
      simp only [Linker.terminalTexts] at htext
      split at htext
      · next entry id hentry hid =>
          obtain ⟨entry', hentry', hextends⟩ := h.registry _ entry hentry
          simpa only [Linker.terminalTexts, hentry', h.symbols.fieldId? hid,
            hextends.hopText_eq] using htext
      · cases htext
  | hop hop =>
      simp only [Linker.terminalTexts] at htext
      split at htext
      · next entry hentry =>
          obtain ⟨entry', hentry', hextends⟩ := h.registry _ entry hentry
          simpa only [Linker.terminalTexts, hentry', hextends.hopText_eq] using htext
      · cases htext
  | displayName | entityTypeName => exact htext
  | field name =>
      simp only [Linker.terminalTexts] at htext
      split at htext
      · next id hid => simpa only [Linker.terminalTexts, h.symbols.fieldId? hid] using htext
      · cases htext

/-- A variant is not lost where more is registered, published or in scope. -/
theorem Extends.variants {scope scope' : Scope} (hscope : scope.Within scope') (path : Path) :
    earlier.variants path scope ⊆ later.variants path scope' := by
  intro text htext
  rw [variants_eq_distinct, mem_distinct, walkTexts] at htext ⊢
  cases hsegments : earlier.segments? path.hops with
  | none => rw [hsegments] at htext; cases htext
  | some segments =>
      rw [hsegments] at htext
      rw [h.segments? hsegments]
      rcases List.mem_flatMap.1 htext with ⟨start, hstart, htext⟩
      rcases List.mem_flatMap.1 htext with ⟨picks, hpicks, htext⟩
      rcases List.mem_map.1 htext with ⟨last, hlast, rfl⟩
      refine List.mem_flatMap.2 ⟨start, hscope.types hstart, ?_⟩
      refine List.mem_flatMap.2 ⟨picks, h.walks _ hpicks, ?_⟩
      exact List.mem_map_of_mem (h.terminalTexts hscope _ _ hlast)

end Linker

/-! ## Alternatives that stay -/

theorem fillings_subset {variants variants' : Path → List String}
    (h : ∀ path, variants path ⊆ variants' path) (segments : List Segment) :
    fillings variants segments ⊆ fillings variants' segments := by
  induction segments with
  | nil => exact List.Subset.refl _
  | cons segment segments ih =>
      intro text htext
      cases segment with
      | literal source =>
          rcases List.mem_map.1 htext with ⟨rest, hrest, rfl⟩
          exact List.mem_map_of_mem (ih hrest)
      | path path source =>
          rcases List.mem_flatMap.1 htext with ⟨variant, hvariant, htext⟩
          rcases List.mem_map.1 htext with ⟨rest, hrest, rfl⟩
          exact List.mem_flatMap.2 ⟨variant, h path hvariant, List.mem_map_of_mem (ih hrest)⟩

namespace Linker

/-- The alternatives that are left of a template, each where it first occurs. -/
def survivors (linker : Linker) (owner : TypeRef) (template : String) (anchor : Option String) :
    List String :=
  distinct <| ((Alternatives.pieces template).map Segment.ofString).flatMap <|
    fillings fun path => linker.variants path (linker.scope owner anchor)

/-- Where a template has paths, its surviving alternatives are what is written in its place. -/
theorem text_substitute (linker : Linker) {owner : TypeRef} {template : String}
    {anchor : Option String} (h : (linker.substitute owner template anchor).tokens ≠ 0) :
    (linker.substitute owner template anchor).text =
      Alternatives.join (linker.survivors owner template anchor) := by
  rw [substitute_eq_fillings] at h ⊢
  split
  · next hnone => rw [if_pos hnone] at h; exact absurd rfl h
  · rw [Alternatives.render, Alternatives.items_ofList]
    rfl

/-- A template vanishes if it has paths and nothing is written in any surviving alternative. -/
theorem vanished_substitute_iff (linker : Linker) (owner : TypeRef) (template : String)
    (anchor : Option String) :
    (linker.substitute owner template anchor).vanished ↔
      (linker.substitute owner template anchor).tokens ≠ 0 ∧
        ∀ text ∈ linker.survivors owner template anchor, text = "" := by
  rw [Substitution.vanished, Bool.and_eq_true, decide_eq_true_iff, gt_iff_lt,
    Nat.pos_iff_ne_zero, String.isEmpty_iff]
  refine and_congr_right fun htokens => ?_
  rw [linker.text_substitute htokens]
  exact Alternatives.join_eq_empty_iff (nodup_distinct _)

variable {earlier later : Linker}

/-- The paths of a template depend neither on what is registered nor on where they start. -/
theorem tokens_substitute_eq (earlier later : Linker) (owner : TypeRef) (template : String)
    (anchor anchor' : Option String) :
    (later.substitute owner template anchor').tokens =
      (earlier.substitute owner template anchor).tokens := by
  rw [substitute_eq_fillings, substitute_eq_fillings]
  split <;> rfl

/-- Where no variant is lost, no alternative is. -/
theorem survivors_subset {owner : TypeRef} {anchor anchor' : Option String}
    (h : ∀ path, earlier.variants path (earlier.scope owner anchor) ⊆
      later.variants path (later.scope owner anchor')) (template : String) :
    earlier.survivors owner template anchor ⊆ later.survivors owner template anchor' := by
  intro text htext
  rw [Linker.survivors, mem_distinct] at htext ⊢
  rcases List.mem_flatMap.1 htext with ⟨segments, hsegments, htext⟩
  exact List.mem_flatMap.2 ⟨segments, hsegments, fillings_subset h segments htext⟩

theorem Extends.survivors (h : later.Extends earlier) (owner : TypeRef) (template : String)
    (anchor : Option String) :
    earlier.survivors owner template anchor ⊆ later.survivors owner template anchor :=
  survivors_subset (h.variants (h.scope owner anchor)) template

theorem Extends.unresolved (h : later.Extends earlier) (owner : TypeRef) (template : String)
    (anchor : Option String) :
    (later.substitute owner template anchor).unresolved ⊆
      (earlier.substitute owner template anchor).unresolved := by
  have hlost : ∀ path, (later.variants path (later.scope owner anchor)).isEmpty = true →
      (earlier.variants path (earlier.scope owner anchor)).isEmpty = true := by
    intro path hpath
    rw [List.isEmpty_iff] at hpath ⊢
    exact List.subset_nil.1 (hpath ▸ h.variants (h.scope owner anchor) path)
  rw [substitute_eq_fillings, substitute_eq_fillings]
  split
  · exact List.Subset.refl _
  · intro text htext
    rcases List.mem_map.1 htext with ⟨path, hpath, rfl⟩
    rcases List.mem_filter.1 hpath with ⟨hmem, hempty⟩
    exact List.mem_map_of_mem (List.mem_filter.2 ⟨hmem, hlost path hempty⟩)

/-- Whatever resolves still does so after relations, types at their ends or fields were added. No
variant of a path and no alternative left of a template is lost, no other path of the template
is left without a variant, and no other template vanishes. -/
theorem resolution_monotone (h : later.Extends earlier) :
    (∀ path scope, earlier.variants path scope ⊆ later.variants path scope) ∧
    ∀ owner template anchor,
      let before := earlier.substitute owner template anchor
      let after := later.substitute owner template anchor
      after.tokens = before.tokens ∧
      (before.tokens ≠ 0 →
        before.text = Alternatives.join (earlier.survivors owner template anchor) ∧
        after.text = Alternatives.join (later.survivors owner template anchor)) ∧
      earlier.survivors owner template anchor ⊆ later.survivors owner template anchor ∧
      after.unresolved ⊆ before.unresolved ∧
      (after.vanished → before.vanished) := by
  refine ⟨fun path scope => h.variants (.refl scope) path, fun owner template anchor => ?_⟩
  intro before after
  have htokens : after.tokens = before.tokens := tokens_substitute_eq ..
  have hsurvivors := h.survivors owner template anchor
  refine ⟨htokens, fun hpaths => ⟨text_substitute _ hpaths, text_substitute _ ?_⟩, hsurvivors,
    h.unresolved owner template anchor, fun hvanished => ?_⟩
  · rw [tokens_substitute_eq earlier later]
    exact hpaths
  · obtain ⟨hpaths, hempty⟩ := (vanished_substitute_iff ..).1 hvanished
    exact (vanished_substitute_iff ..).2
      ⟨htokens ▸ hpaths, fun text htext => hempty text (hsurvivors htext)⟩

/-! ## Articles beside books -/

/-- Authors write books, and these have titles. -/
def onlyBooks : Linker where
  registry := { relations := some (.ofList [
    ("wrote", { id := "R1", domain := ["author"], range := ["book"] })]) }
  symbols := SymbolTable.empty.publish (.entity "book") (.ofList [("title", "B1")])

/-- Authors write articles, too, and books have pages. -/
def booksAndArticles : Linker where
  registry := { relations := some (.ofList [
    ("cites", { id := "R2", domain := ["article"], range := ["book"] }),
    ("wrote", { id := "R1", domain := ["author"], range := ["article", "book"] })]) }
  symbols := (SymbolTable.empty.publish (.entity "article") (.ofList [("title", "A1")])).publish
    (.entity "book") (.ofList [("pages", "B2"), ("title", "B1")])

theorem booksAndArticles_extends : booksAndArticles.Extends onlyBooks where
  registry name entry h := by
    obtain ⟨rfl, rfl⟩ := SortedMap.eq_of_find?_singleton h
    exact ⟨_, rfl, rfl, by decide, by decide⟩
  symbols type lookup h := by
    obtain ⟨rfl, rfl⟩ := SortedMap.eq_of_find?_singleton h
    refine ⟨_, rfl, fun name id hid => ?_⟩
    have hentry : (name, id) ∈ [("id", "id"), ("title", "B1")] := SortedMap.find?_eq_some_iff.1 hid
    rcases List.mem_cons.1 hentry with heq | hentry
    · obtain ⟨rfl, rfl⟩ := Prod.mk.inj heq
      rfl
    · obtain ⟨rfl, rfl⟩ := Prod.mk.inj (List.mem_singleton.1 hentry)
      rfl

/-- The title of a book is left where articles come before it, as a variant as well as in a
template whose other alternative leads nowhere at first. -/
theorem titles_of_books_stay :
    let title : Path := ⟨[⟨.forward, "wrote"⟩], .field "title"⟩
    let author : TypeRef := .entity "author"
    let template := "$r_wrote->$title $||$ $r_wrote->$pages"
    booksAndArticles.Extends onlyBooks ∧
      onlyBooks.variants title (.own author) = ["$r_R1->$B1"] ∧
      "$r_R1->$B1" ∈ booksAndArticles.variants title (.own author) ∧
      onlyBooks.survivors author template none = ["$r_R1->$B1"] ∧
      (onlyBooks.substitute author template none).unresolved = ["$r_wrote->$pages"] ∧
      "$r_R1->$B1" ∈ booksAndArticles.survivors author template none ∧
      (booksAndArticles.substitute author template none).unresolved ⊆ ["$r_wrote->$pages"] := by
  intro title author template
  have hvariants : onlyBooks.variants title (.own author) = ["$r_R1->$B1"] := by decide
  have hbooks : onlyBooks.survivors author template none = ["$r_R1->$B1"] := by decide +kernel
  have hpages : (onlyBooks.substitute author template none).unresolved = ["$r_wrote->$pages"] := by
    decide +kernel
  obtain ⟨hpaths, hsubstitute⟩ := resolution_monotone booksAndArticles_extends
  obtain ⟨-, -, hsurvivors, hunresolved, -⟩ := hsubstitute author template none
  refine ⟨booksAndArticles_extends, hvariants, ?_, hbooks, hpages, ?_, hpages ▸ hunresolved⟩
  · exact hpaths title _ (hvariants ▸ List.mem_singleton_self _)
  · exact hsurvivors (hbooks ▸ List.mem_singleton_self _)

end Linker

end SchemaLink
