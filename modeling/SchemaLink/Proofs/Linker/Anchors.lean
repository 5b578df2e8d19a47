import SchemaLink.Proofs.Alternatives
import SchemaLink.Proofs.Linker.Walks
import SchemaLink.Proofs.Path.Spelling

/-! # Anchors

An anchor moves the scope to where its last hop arrives, repetitions included. A path that is
written out after the anchor walks all of its hops instead. Both resolve alike: what follows the
hops has the same variants, in the same order. -/

namespace SchemaLink

/-! ## The hop of an anchor -/

/-- No separator crosses a lexeme that paths are made of. -/
theorem Lexeme.InPath.firm {lexeme : Lexeme} (h : lexeme.InPath) :
    Alternatives.Firm lexeme.source.toList := by
  cases lexeme with
  | arrow => exact ⟨by decide, '-', by decide, by decide⟩
  | dot => exact ⟨by decide, '.', by decide, by decide⟩
  | name word =>
      have hblank : ' ' ∉ word.toList := fun hmem => absurd (h.2 ' ' hmem) (by decide)
      obtain ⟨c, hc⟩ := List.exists_mem_of_ne_nil _ (mt String.toList_eq_nil_iff.1 h.1)
      have hother : c ∉ Alternatives.separator.toList := by
        have hnames : Alternatives.separator.toList.all (!isNameChar ·) = true := by decide
        intro hmem
        simpa [h.2 c hc] using List.all_eq_true.1 hnames c hmem
      exact ⟨by simpa [source] using hblank, c, by simp [source, hc], hother⟩
  | dollar | minus | text => cases h

theorem Path.WellFormed.blank_not_mem {path : Path} (h : path.WellFormed) :
    ' ' ∉ path.text.toList := by
  rw [← Path.sources_lexemes]
  intro hmem
  rcases List.mem_flatMap.1 hmem with ⟨lexeme, hlexeme, hblank⟩
  exact (Path.inPath_lexemes h lexeme hlexeme).firm.blank_not_mem hblank

/-- A text that is a path as a whole is one alternative, so it anchors at one hop at most. -/
theorem anchorHops_of_parse? {anchor : String} {path : Path}
    (h : Path.parse? anchor = some path) : anchorHops anchor = path.anchor?.toList := by
  obtain ⟨hpath, rfl⟩ := Path.of_parse? h
  have hitems : (Alternatives.parse path.text).items = [path.text] := by
    rw [Alternatives.parse, Alternatives.pieces_of_blank_not_mem hpath.blank_not_mem]
    rfl
  rw [anchorHops, hitems, List.filterMap_cons, h, Option.bind_some]
  cases path.anchor? <;> rfl

/-! ## Walks over more hops -/

/-- Where a walk ends depends on what it picks last. -/
theorem walkEnd_append_cons (start : TypeRef) (front : List String) (target : String)
    (picks : List String) :
    walkEnd start (front ++ target :: picks) = walkEnd (.entity target) picks := by
  induction front generalizing start with
  | nil => exact walkEnd_cons ..
  | cons pick front ih => rw [List.cons_append, walkEnd_cons, ih]

namespace Linker

variable (linker : Linker)

theorem segments?_append (hops more : List Hop) :
    linker.segments? (hops ++ more) = do
      let front ← linker.segments? hops
      let rest ← linker.segments? more
      return front ++ rest := by
  rw [segments?, List.mapM_append]
  rfl

theorem length_of_segments? {hops : List Hop} {segments : List String}
    (h : linker.segments? hops = some segments) : segments.length = hops.length := by
  induction hops generalizing segments with
  | nil =>
      obtain rfl := Option.some.inj h
      rfl
  | cons hop hops ih =>
      rw [segments?_cons] at h
      split at h
      · cases h
      · obtain ⟨rest, hrest, rfl⟩ := Option.map_eq_some_iff.1 h
        rw [List.length_cons, ih hrest, List.length_cons]

/-- A hop that arrives somewhere is over a registered relation. -/
theorem exists_segments {hops : List Hop} (h : ∀ hop ∈ hops, linker.targets hop ≠ []) :
    ∃ segments, linker.segments? hops = some segments := by
  induction hops with
  | nil => exact ⟨[], rfl⟩
  | cons hop hops ih =>
      obtain ⟨hhop, hhops⟩ := List.forall_mem_cons.1 h
      obtain ⟨segments, hsegments⟩ := ih hhops
      rw [segments?_cons, hsegments]
      cases hentry : linker.registry.relation? hop.relation with
      | none => exact absurd (by rw [targets, hentry]) hhop
      | some entry => exact ⟨_, rfl⟩

theorem walks_append (hops more : List Hop) :
    linker.walks (hops ++ more) =
      (linker.walks hops).flatMap fun front => (linker.walks more).map (front ++ ·) := by
  induction hops with
  | nil => simp [walks]
  | cons hop hops ih =>
      simp only [List.cons_append, walks, ih, List.map_flatMap, List.flatMap_map, List.map_map,
        List.flatMap_assoc]
      rfl

theorem walks_ne_nil {hops : List Hop} (h : ∀ hop ∈ hops, linker.targets hop ≠ []) :
    linker.walks hops ≠ [] := by
  induction hops with
  | nil => exact List.cons_ne_nil _ _
  | cons hop hops ih =>
      obtain ⟨hhop, hhops⟩ := List.forall_mem_cons.1 h
      obtain ⟨target, htarget⟩ := List.exists_mem_of_ne_nil _ hhop
      obtain ⟨picks, hpicks⟩ := List.exists_mem_of_ne_nil _ (ih hhops)
      exact List.ne_nil_of_mem
        (List.mem_flatMap.2 ⟨target, htarget, List.mem_map_of_mem hpicks⟩)

/-- Only properties of its own depend on which relations are in scope. -/
theorem terminalTexts_eq_of_ne {terminal : Terminal}
    (h : ∀ property, terminal ≠ .ownProperty property) (scope scope' : Scope) (type : TypeRef) :
    linker.terminalTexts scope type terminal = linker.terminalTexts scope' type terminal := by
  cases terminal with
  | ownProperty property => exact absurd rfl (h property)
  | hopProperty | hop | displayName | entityTypeName | field => rfl

variable {hops : List Hop} {last : Hop} {path : Path}

/-- The texts of walks over some hops and a path, for every walk up to the last of the hops: they
are those of the path where the last hop arrives, behind the id forms of the hops. -/
theorem walkTexts_append {segments : List String} (scope : Scope) (relations : List String)
    (hsegments : linker.segments? (hops ++ [last]) = some segments)
    (hown : ∀ property, path.terminal ≠ .ownProperty property) :
    linker.walkTexts ⟨hops ++ last :: path.hops, path.terminal⟩ scope =
      scope.types.flatMap fun _ => (linker.walks hops).flatMap fun _ =>
        (linker.walkTexts path ⟨(linker.targets last).map .entity, relations⟩).map fun text =>
          "->".intercalate segments ++ "->" ++ text := by
  have hsplit : linker.segments? (hops ++ last :: path.hops) =
      (linker.segments? path.hops).map (segments ++ ·) := by
    rw [List.append_cons, linker.segments?_append, hsegments]
    cases linker.segments? path.hops <;> rfl
  have hne : segments ≠ [] := by
    rintro rfl
    have hlength := linker.length_of_segments? hsegments
    simp at hlength
  rw [walkTexts, walkTexts]
  dsimp only
  rw [hsplit]
  cases linker.segments? path.hops with
  | none => simp
  | some rest =>
      have hbehind (text : String) : "->".intercalate (segments ++ rest ++ [text]) =
          "->".intercalate segments ++ "->" ++ "->".intercalate (rest ++ [text]) := by
        rw [List.append_assoc, String.intercalate_append_of_ne_nil hne (by simp)]
      simp only [Option.map_some, walks_append, walks, hbehind, List.map_flatMap, List.flatMap_map,
        List.flatMap_assoc, List.map_map, Function.comp_def, walkEnd_append_cons,
        linker.terminalTexts_eq_of_ne hown scope ⟨(linker.targets last).map .entity, relations⟩]

/-- A path is resolved behind an anchor as it is where the hops of the anchor are written out before
it, if all of these arrive somewhere and the path ends in no property of its own: the same variants
are found in the same order, behind the id forms of the hops. -/
theorem variants_anchored {base : String} (hbase : Path.parse? base = some ⟨hops, .hop last⟩)
    (htargets : ∀ hop ∈ hops ++ [last], linker.targets hop ≠ [])
    (hown : ∀ property, path.terminal ≠ .ownProperty property) (owner : TypeRef) :
    ∃ segments, linker.segments? (hops ++ [last]) = some segments ∧
      linker.variants ⟨hops ++ last :: path.hops, path.terminal⟩ (linker.scope owner none) =
        (linker.variants path (linker.scope owner (some base))).map fun variant =>
          "->".intercalate segments ++ "->" ++ variant := by
  obtain ⟨segments, hsegments⟩ := linker.exists_segments htargets
  have hscope : linker.scope owner (some base) =
      ⟨(linker.targets last).map .entity, [last.relation]⟩ := by
    rw [scope, anchorHops_of_parse? hbase]
    simp [Path.anchor?]
  have hwalks : linker.walks hops ≠ [] :=
    linker.walks_ne_nil fun hop hhop => htargets hop (List.mem_append_left _ hhop)
  refine ⟨segments, hsegments, ?_⟩
  have hinjective : ∀ text ∈ linker.walkTexts path (linker.scope owner (some base)),
      ∀ other ∈ linker.walkTexts path (linker.scope owner (some base)),
        "->".intercalate segments ++ "->" ++ text = "->".intercalate segments ++ "->" ++ other →
          text = other := fun _ _ _ _ => (String.append_right_inj _).1
  rw [variants_eq_distinct, variants_eq_distinct, map_distinct hinjective, hscope,
    linker.walkTexts_append _ [last.relation] hsegments hown]
  exact (distinct_flatMap_const (List.cons_ne_nil _ _) _).trans (distinct_flatMap_const hwalks _)

/-- Authors and editors have names and write books and articles, and books cite both. -/
def citations : Linker where
  registry := { relations := some (.ofList [
    ("wrote", { id := "R1", domain := ["author", "editor"], range := ["book", "article"] }),
    ("cites", { id := "R2", domain := ["book"], range := ["book", "article", "book"] })]) }
  symbols := (SymbolTable.empty.publish (.entity "author") (.ofList [("name", "N1")])).publish
    (.entity "editor") (.ofList [("name", "N2")])

/-- A book that is cited comes up twice behind the anchor, and two walks lead to whoever wrote it;
their names are found once either way. -/
theorem names_behind_citations :
    let wrote : Hop := ⟨.forward, "wrote"⟩
    let cites : Hop := ⟨.forward, "cites"⟩
    let name : Path := ⟨[⟨.inverse, "wrote"⟩], .field "name"⟩
    let anchored := citations.scope (.entity "author") (some "$r_wrote->$r_cites")
    Path.parse? "$r_wrote->$r_cites" = some ⟨[wrote], .hop cites⟩ ∧
      (∀ hop ∈ [wrote] ++ [cites], citations.targets hop ≠ []) ∧
      (∀ property, name.terminal ≠ .ownProperty property) ∧
      anchored.types = [.entity "book", .entity "article", .entity "book"] ∧
      citations.variants name anchored = ["$ri_R1->$N1", "$ri_R1->$N2"] ∧
      citations.variants ⟨[wrote, cites, ⟨.inverse, "wrote"⟩], name.terminal⟩
          (citations.scope (.entity "author") none) =
        ["$r_R1->$r_R2->$ri_R1->$N1", "$r_R1->$r_R2->$ri_R1->$N2"] := by
  intro wrote cites name anchored
  have hbase : Path.parse? "$r_wrote->$r_cites" = some ⟨[wrote], .hop cites⟩ := by
    decide +kernel
  have htargets : ∀ hop ∈ [wrote] ++ [cites], citations.targets hop ≠ [] := by decide
  have hown : ∀ property, name.terminal ≠ .ownProperty property := nofun
  have hanchored : citations.variants name anchored = ["$ri_R1->$N1", "$ri_R1->$N2"] := by
    decide +kernel
  obtain ⟨segments, hsegments, hvariants⟩ :=
    citations.variants_anchored hbase htargets hown (.entity "author")
  obtain rfl : segments = ["$r_R1", "$r_R2"] := Option.some.inj (hsegments.symm.trans (by decide))
  refine ⟨hbase, htargets, hown, by decide +kernel, hanchored, hvariants.trans ?_⟩
  rw [hanchored]
  decide

end Linker

end SchemaLink
