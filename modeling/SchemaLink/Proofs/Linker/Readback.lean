import SchemaLink.Proofs.Linker.Listings

/-! # Reading alternatives back

What is left of a template is written with separators in between. If ids are plain, no separator
crosses a variant, so the alternatives that are written hold as many separators as the template
does. Still one of them can start too soon: the last alternative of a template may end in a
separator but for its last blank, and such a text cannot be told from the next if there is one. -/

namespace SchemaLink

open Alternatives

/-! ## Plain ids -/

/-- ASCII letters and digits, hyphens and underscores. -/
def isPlainChar (c : Char) : Bool := c.isAlphanum || c == '-' || c == '_'

def IsPlainId (id : String) : Prop := id ≠ "" ∧ ∀ c ∈ id.toList, isPlainChar c = true

instance : DecidablePred IsPlainId := fun id =>
  decidable_of_iff (id ≠ "" ∧ id.toList.all isPlainChar = true) (by simp [IsPlainId])

theorem IsPlainId.firm {id : String} (h : IsPlainId id) : Firm id.toList where
  blank_not_mem hmem := absurd (h.2 ' ' hmem) (by decide)
  exists_not_mem := by
    obtain ⟨c, hc⟩ := List.exists_mem_of_ne_nil _ (mt String.toList_eq_nil_iff.1 h.1)
    have hseparator : separator.toList.all (!isPlainChar ·) = true := by decide
    refine ⟨c, hc, fun hmem => ?_⟩
    simpa [h.2 c hc] using List.all_eq_true.1 hseparator c hmem

/-- The ids of relations and fields are plain. -/
structure Linker.PlainIds (linker : Linker) : Prop where
  relations : ∀ name entry, linker.registry.relation? name = some entry → IsPlainId entry.id
  fields : ∀ type name id, linker.symbols.fieldId? type name = some id → IsPlainId id

namespace Linker

variable {linker : Linker}

theorem PlainIds.firm_segment (h : linker.PlainIds) {hop : Hop} {entry : RelationEntry}
    (hentry : linker.registry.relation? hop.relation = some entry) :
    Firm (hop.segment entry.id).toList := by
  have hid := (h.relations _ _ hentry).firm
  unfold Hop.segment
  cases hop.direction with
  | forward => exact String.toList_append ▸ hid.append (by decide)
  | inverse => exact String.toList_append ▸ hid.append (by decide)

theorem PlainIds.firm_of_mem_segments (h : linker.PlainIds) {hops : List Hop}
    {segments : List String} (hsegments : linker.segments? hops = some segments) :
    ∀ segment ∈ segments, Firm segment.toList := by
  induction hops generalizing segments with
  | nil =>
      obtain rfl := Option.some.inj hsegments
      exact List.forall_mem_nil _
  | cons hop hops ih =>
      rw [segments?_cons] at hsegments
      split at hsegments
      · cases hsegments
      · next entry hentry =>
          obtain ⟨rest, hrest, rfl⟩ := Option.map_eq_some_iff.1 hsegments
          exact List.forall_mem_cons.2 ⟨h.firm_segment hentry, ih hrest⟩

theorem PlainIds.firm_of_mem_terminalTexts (h : linker.PlainIds) {scope : Scope} {type : TypeRef}
    {terminal : Terminal} {text : String}
    (htext : text ∈ linker.terminalTexts scope type terminal) : Firm text.toList := by
  cases terminal with
  | ownProperty property =>
      rcases List.mem_filterMap.1 htext with ⟨relation, -, htext⟩
      rcases Option.map_eq_some_iff.1 htext with ⟨id, hid, rfl⟩
      exact String.toList_append ▸ (h.fields _ _ _ hid).firm.append (by decide)
  | hopProperty hop property =>
      rw [terminalTexts] at htext
      split at htext
      · next entry id hentry hid =>
          obtain rfl := List.mem_singleton.1 htext
          rw [entry.hopText_eq_segment, String.toList_append, String.toList_append]
          refine (h.fields _ _ _ hid).firm.append ?_
          simpa using (h.firm_segment hentry).blank_not_mem
      · cases htext
  | hop hop =>
      rw [terminalTexts] at htext
      split at htext
      · next entry hentry =>
          obtain rfl := List.mem_singleton.1 htext
          exact entry.hopText_eq_segment hop ▸ h.firm_segment hentry
      · cases htext
  | displayName =>
      obtain rfl := List.mem_singleton.1 htext
      exact ⟨by decide, '_', by decide, by decide⟩
  | entityTypeName =>
      obtain rfl := List.mem_singleton.1 htext
      exact ⟨by decide, '_', by decide, by decide⟩
  | field name =>
      rw [terminalTexts] at htext
      split at htext
      · next id hid =>
          obtain rfl := List.mem_singleton.1 htext
          exact String.toList_append ▸ (h.fields _ _ _ hid).firm.append (by decide)
      · cases htext

theorem firm_intercalate {segments : List String} {last : String}
    (h : ∀ segment ∈ segments, Firm segment.toList) (hlast : Firm last.toList) :
    Firm ("->".intercalate (segments ++ [last])).toList := by
  induction segments with
  | nil => simpa using hlast
  | cons segment segments ih =>
      obtain ⟨hsegment, hsegments⟩ := List.forall_mem_cons.1 h
      rw [List.cons_append, String.intercalate_cons_of_ne_nil (by simp), String.toList_append,
        String.toList_append]
      refine (ih hsegments).append ?_
      simpa using hsegment.blank_not_mem

/-- If ids are plain, no separator crosses a variant. -/
theorem PlainIds.firm_of_mem_variants (h : linker.PlainIds) {path : Path} {scope : Scope}
    {variant : String} (hvariant : variant ∈ linker.variants path scope) : Firm variant.toList := by
  rw [variants_eq_distinct, mem_distinct, walkTexts] at hvariant
  split at hvariant
  · cases hvariant
  · next segments hsegments =>
      obtain ⟨start, -, hvariant⟩ := List.mem_flatMap.1 hvariant
      obtain ⟨picks, -, hvariant⟩ := List.mem_flatMap.1 hvariant
      obtain ⟨last, hlast, rfl⟩ := List.mem_map.1 hvariant
      exact firm_intercalate (h.firm_of_mem_segments hsegments) (h.firm_of_mem_terminalTexts hlast)

end Linker

/-! ## Separators in what alternatives become -/

/-- No separator crosses a path that was read, either. -/
theorem Segment.firm_source {text source : String} {path : Path}
    (h : .path path source ∈ ofString text) : Firm source.toList := by
  obtain ⟨later, found, hlater, hread, rfl, rfl⟩ := read?_of_mem_ofLexemes h
  have hspanned : ∀ lexeme ∈ found.spanned, lexeme.InPath :=
    Lexeme.inPath_of_read? hread fun word hword =>
      Lexeme.inPath_name_of_mem_scan (hlater.subset hword)
  rw [Lexeme.toList_join_source, Lexeme.sources, List.flatMap_def]
  refine firm_flatten (mt List.map_eq_nil_iff.1 (PathMatch.spanned_ne_nil hread)) ?_
  exact List.forall_mem_map.2 fun lexeme hlexeme => (hspanned lexeme hlexeme).firm

/-- What is seen of a text does not depend on which firm text there is somewhere in it. -/
def OverlooksFirm (p : List Char → Prop) : Prop :=
  ∀ ⦃front cs other back⦄, Firm cs → Firm other →
    (p (front ++ (cs ++ back)) ↔ p (front ++ (other ++ back)))

theorem overlooksFirm_holdsSeparator : OverlooksFirm HoldsSeparator :=
  fun _ _ _ _ h h' => h.holdsSeparator_iff.trans h'.holdsSeparator_iff.symm

theorem overlooksFirm_dangles : OverlooksFirm Dangles :=
  fun _ _ _ _ h h' => h.dangles_iff.trans h'.dangles_iff.symm

section Fillings

variable {p : List Char → Prop} {variants : Path → List String} {filling : String}

theorem OverlooksFirm.filling_iff (hp : OverlooksFirm p)
    (hvariants : ∀ path, ∀ variant ∈ variants path, Firm variant.toList) {segments : List Segment}
    (hsources : ∀ path source, .path path source ∈ segments → Firm source.toList)
    (h : filling ∈ fillings variants segments) (front : List Char) :
    p (front ++ filling.toList) ↔
      p (front ++ (String.join (segments.map Segment.source)).toList) := by
  induction segments generalizing filling front with
  | nil =>
      obtain rfl := List.mem_singleton.1 h
      rfl
  | cons segment segments ih =>
      have hrest : ∀ path source, .path path source ∈ segments → Firm source.toList :=
        fun path source hmem => hsources path source (List.mem_cons_of_mem _ hmem)
      cases segment with
      | literal source =>
          obtain ⟨rest, hmem, rfl⟩ := List.mem_map.1 h
          simpa [Segment.source] using ih hrest hmem (front ++ source.toList)
      | path path source =>
          obtain ⟨variant, hvariant, h⟩ := List.mem_flatMap.1 h
          obtain ⟨rest, hmem, rfl⟩ := List.mem_map.1 h
          have hvariant := hvariants path variant hvariant
          rw [String.toList_append, hp hvariant (hsources path source List.mem_cons_self)]
          simpa [Segment.source] using ih hrest hmem (front ++ source.toList)

theorem OverlooksFirm.filling_ofString_iff (hp : OverlooksFirm p)
    (hvariants : ∀ path, ∀ variant ∈ variants path, Firm variant.toList) {text : String}
    (h : filling ∈ fillings variants (Segment.ofString text)) :
    p filling.toList ↔ p text.toList := by
  have hsources : ∀ path source, .path path source ∈ Segment.ofString text → Firm source.toList :=
    fun _ _ => Segment.firm_source
  simpa only [Segment.join_ofString, List.nil_append] using hp.filling_iff hvariants hsources h []

end Fillings

/-! ## Alternatives that are read back -/

theorem forall_mem_dropLast_append_iff {α : Type} {p : α → Prop} {front back : List α}
    (hfront : ∀ x ∈ front, ¬ p x) (hback : ∀ x ∈ back, p x) :
    (∀ x ∈ (front ++ back).dropLast, ¬ p x) ↔ back.length ≤ 1 := by
  match back, hback with
  | [], _ =>
      rw [List.append_nil]
      exact iff_of_true (fun x hx => hfront x ((List.dropLast_subset _) hx)) (Nat.zero_le 1)
  | [_], _ =>
      rw [List.dropLast_concat]
      exact iff_of_true hfront (Nat.le_refl 1)
  | y :: z :: back, hback =>
      have hmem : y ∈ (front ++ y :: z :: back).dropLast := by
        rw [List.dropLast_append_cons, List.dropLast_cons_cons]
        exact List.mem_append_right _ List.mem_cons_self
      exact iff_of_false (fun h => h y hmem (hback y List.mem_cons_self)) (by simp)

namespace Linker

variable {linker : Linker} {owner : TypeRef} {template : String} {anchor : Option String}

/-- What survives can be told apart unless the last alternative of the template dangles and several
texts come of it. -/
theorem PlainIds.separable_survivors_iff (h : linker.PlainIds)
    (hne : linker.survivors owner template anchor ≠ []) :
    Separable (linker.survivors owner template anchor) ↔
      ∀ last ∈ (pieces template).getLast?, Dangles last.toList →
        (distinct (fillings (linker.variants · (linker.scope owner anchor))
          (Segment.ofString last))).length ≤ 1 := by
  let become (text : String) : List String :=
    fillings (linker.variants · (linker.scope owner anchor)) (Segment.ofString text)
  have hbecome {p : List Char → Prop} (hp : OverlooksFirm p) {text filling : String}
      (hfilling : filling ∈ become text) : p filling.toList ↔ p text.toList :=
    hp.filling_ofString_iff (fun _ _ => h.firm_of_mem_variants) hfilling
  have hsurvivors : linker.survivors owner template anchor =
      distinct ((pieces template).flatMap become) := by
    rw [survivors, List.flatMap_map]
  have hpieces := separable_pieces template
  have hholds : ∀ text ∈ linker.survivors owner template anchor, ¬ HoldsSeparator text.toList := by
    intro text htext
    rw [hsurvivors, mem_distinct] at htext
    obtain ⟨piece, hpiece, htext⟩ := List.mem_flatMap.1 htext
    refine mt (hbecome overlooksFirm_holdsSeparator htext).1 ?_
    exact hpieces.not_holdsSeparator piece hpiece
  have hseparable : Separable (linker.survivors owner template anchor) ↔
      ∀ text ∈ (linker.survivors owner template anchor).dropLast, ¬ Dangles text.toList :=
    ⟨Separable.not_dangles, fun hdangles => ⟨hne, hholds, hdangles⟩⟩
  obtain ⟨front, last, hsplit⟩ : ∃ front last, pieces template = front ++ [last] :=
    ⟨_, _, (List.dropLast_append_getLast hpieces.ne_nil).symm⟩
  have hfront : ∀ text ∈ front.flatMap become, ¬ Dangles text.toList := by
    intro text htext
    obtain ⟨piece, hpiece, htext⟩ := List.mem_flatMap.1 htext
    refine mt (hbecome overlooksFirm_dangles htext).1 (hpieces.not_dangles piece ?_)
    rwa [hsplit, List.dropLast_concat]
  rw [hseparable, hsurvivors, hsplit, List.flatMap_append, List.flatMap_singleton,
    List.getLast?_concat]
  simp only [Option.mem_some, forall_eq']
  by_cases hlast : Dangles last.toList
  · have hback : ∀ text ∈ become last, Dangles text.toList := fun text htext =>
      (hbecome overlooksFirm_dangles htext).2 hlast
    rw [distinct_append_of_disjoint fun text htext hmem => hfront text htext (hback text hmem),
      forall_mem_dropLast_append_iff (fun text htext => hfront text (mem_distinct.1 htext))
        fun text htext => hback text (mem_distinct.1 htext)]
    exact ⟨fun hlength _ => hlength, fun hlength => hlength hlast⟩
  · refine iff_of_true (fun text htext => ?_) fun hdangles => absurd hdangles hlast
    rcases List.mem_append.1 (mem_distinct.1 ((List.dropLast_subset _) htext)) with hmem | hmem
    · exact hfront text hmem
    · exact mt (hbecome overlooksFirm_dangles hmem).1 hlast

/-- With plain ids, what a template becomes reads as the alternatives that survive just if the last
alternative of the template does not dangle or at most one text comes of it; a template that does
not dangle itself is always fine. -/
theorem readback_iff (h : linker.PlainIds)
    (htokens : (linker.substitute owner template anchor).tokens ≠ 0)
    (hne : linker.survivors owner template anchor ≠ []) :
    let items := (parse (linker.substitute owner template anchor).text).items
    let scope := linker.scope owner anchor
    (items = linker.survivors owner template anchor ↔
      ∀ last ∈ (pieces template).getLast?, Dangles last.toList →
        (distinct (fillings (linker.variants · scope) (Segment.ofString last))).length ≤ 1) ∧
    (¬ Dangles template.toList → items = linker.survivors owner template anchor) := by
  intro items scope
  have hitems : items = linker.survivors owner template anchor ↔
      ∀ last ∈ (pieces template).getLast?, Dangles last.toList →
        (distinct (fillings (linker.variants · scope) (Segment.ofString last))).length ≤ 1 := by
    have hnodup : (linker.survivors owner template anchor).Nodup := nodup_distinct _
    simp only [items, linker.text_substitute htokens, items_parse_join_iff hnodup]
    exact h.separable_survivors_iff hne
  refine ⟨hitems, fun htemplate => hitems.2 fun last hlast hdangles => ?_⟩
  exact absurd (hdangles.trans (suffix_of_mem_getLast?_pieces hlast)) htemplate

theorem plainIds_writings (writers works : List String) : (writings writers works).PlainIds where
  relations name entry hentry := by
    obtain ⟨rfl, rfl⟩ := SortedMap.eq_of_find?_singleton hentry
    show IsPlainId "R1"
    decide
  fields type name id hid := by
    obtain ⟨lookup, hlookup, hid⟩ := Option.bind_eq_some_iff.1 hid
    have hplain : ∀ entry ∈ (writings [] []).symbols.lookups.toList,
        ∀ field ∈ entry.2.ids.toList, IsPlainId field.2 := by decide +kernel
    exact hplain _ (SortedMap.find?_eq_some_iff.1 hlookup) _ (SortedMap.find?_eq_some_iff.1 hid)

/-- One text comes of the alternative that dangles, so all three are read back. -/
theorem untitled_is_read_back :
    let library := writings ["author"] ["book", "article"]
    let template := "$r_wrote->$title $||$ untitled $||$"
    let result := library.substitute (.entity "author") template none
    library.PlainIds ∧ result.tokens ≠ 0 ∧
      library.survivors (.entity "author") template none ≠ [] ∧
      result.text = "$r_R1->$B1 $||$ $r_R1->$A1 $||$ untitled $||$" ∧
      (parse result.text).items = ["$r_R1->$B1", "$r_R1->$A1", "untitled $||$"] := by
  intro library template result
  have hplain : library.PlainIds := plainIds_writings _ _
  have htokens : result.tokens ≠ 0 := by decide +kernel
  have hsurvivors : library.survivors (.entity "author") template none =
      ["$r_R1->$B1", "$r_R1->$A1", "untitled $||$"] := by decide +kernel
  have hne : library.survivors (.entity "author") template none ≠ [] := by
    rw [hsurvivors]
    exact List.cons_ne_nil _ _
  have hlast : ∀ last ∈ (pieces template).getLast?, Dangles last.toList →
      (distinct (fillings (library.variants · (library.scope (.entity "author") none))
        (Segment.ofString last))).length ≤ 1 := by decide +kernel
  refine ⟨hplain, htokens, hne, by decide +kernel, ?_⟩
  exact ((readback_iff hplain htokens hne).1.2 hlast).trans hsurvivors

/-- Two texts come of the alternative that dangles, and what is read back is not what survived. -/
theorem dangling_titles_are_not_read_back :
    let library := writings ["author"] ["book", "article"]
    let template := "$r_wrote->$title $||$"
    let result := library.substitute (.entity "author") template none
    library.PlainIds ∧ result.tokens ≠ 0 ∧
      library.survivors (.entity "author") template none =
        ["$r_R1->$B1 $||$", "$r_R1->$A1 $||$"] ∧
      result.text = "$r_R1->$B1 $||$ $||$ $r_R1->$A1 $||$" ∧
      (parse result.text).items = ["$r_R1->$B1", "$||$ $r_R1->$A1 $||$"] := by
  refine ⟨plainIds_writings _ _, ?_⟩
  decide +kernel

end Linker

end SchemaLink
