import Mathlib.Data.List.Nodup
import SchemaLink.Proofs.Linker.Anchors

/-! # Frontiers along a path

Each hop leads from everything reached so far to all of its targets. Since what is reached carries
the same segments, the ways that lead to one target fall together: a frontier is as wide as the last
hop has distinct targets, however long the path and however many types it starts from. -/

namespace SchemaLink

/-! ## One hop -/

/-- What is reached carries these segments. -/
def Reached.Carry (segments : List String) (frontier : List Reached) : Prop :=
  ∀ reached ∈ frontier, reached.segments = segments

namespace Linker

variable {entry : RelationEntry} {direction : Direction} {frontier : List Reached}
  {segments : List String}

/-- From one or more types with the same segments a hop leads to each of its targets once. -/
theorem follow_of_carry (entry : RelationEntry) (direction : Direction)
    (h : Reached.Carry segments frontier) (hne : frontier ≠ []) :
    follow entry direction frontier = (distinct (entry.targets direction)).map fun target =>
      ⟨.entity target, segments ++ [entry.hopText direction]⟩ := by
  have hinjective : ∀ target ∈ entry.targets direction, ∀ other ∈ entry.targets direction,
      (⟨.entity target, segments ++ [entry.hopText direction]⟩ : Reached) =
        ⟨.entity other, segments ++ [entry.hopText direction]⟩ → target = other := by
    intro target _ other _ heq
    injection heq with htype
    injection htype
  rw [map_distinct hinjective, ← distinct_flatMap_const hne, follow]
  refine congrArg distinct (List.flatMap_congr fun reached hreached => ?_)
  rw [h reached hreached]

/-- A hop puts its segment behind those that are carried. -/
theorem carry_follow (h : Reached.Carry segments frontier) :
    Reached.Carry (segments ++ [entry.hopText direction]) (follow entry direction frontier) := by
  cases frontier with
  | nil => exact List.forall_mem_nil _
  | cons reached frontier =>
      rw [follow_of_carry entry direction h (List.cons_ne_nil _ _)]
      exact List.forall_mem_map.2 fun _ _ => rfl

/-- What a hop leads to, unless from nowhere, are its targets, and each of them once. -/
structure Collapses (linker : Linker) (hop : Hop) (frontier next : List Reached) : Prop where
  nodup : (next.map Reached.type).Nodup
  targets : frontier ≠ [] →
    next.map Reached.type = (linker.targets hop).eraseDups.map TypeRef.entity
  nil : frontier = [] → next = []
  length_le : next.length ≤ (linker.targets hop).eraseDups.length

theorem collapses_follow {linker : Linker} {hop : Hop}
    (hentry : linker.registry.relation? hop.relation = some entry)
    (h : Reached.Carry segments frontier) :
    linker.Collapses hop frontier (follow entry hop.direction frontier) := by
  have htargets : linker.targets hop = entry.targets hop.direction := by rw [targets, hentry]
  cases frontier with
  | nil => exact ⟨List.nodup_nil, fun hne => absurd rfl hne, fun _ => rfl, Nat.zero_le _⟩
  | cons reached frontier =>
      have hfollow := follow_of_carry entry hop.direction h (List.cons_ne_nil _ _)
      have htypes : (follow entry hop.direction (reached :: frontier)).map Reached.type =
          (distinct (linker.targets hop)).map TypeRef.entity := by
        rw [hfollow, htargets, List.map_map]
        rfl
      refine ⟨?_, fun _ => ?_, fun hnil => absurd hnil (List.cons_ne_nil _ _), ?_⟩
      · rw [htypes]
        refine List.Nodup.map (fun target other heq => ?_) (nodup_distinct _)
        injection heq
      · rw [htypes, distinct_eq_eraseDups]
      · rw [← distinct_eq_eraseDups, ← List.length_map Reached.type, htypes, List.length_map]

/-! ## Many hops -/

variable (linker : Linker)

theorem followAll_append (hops more : List Hop) (frontier : List Reached) :
    linker.followAll (hops ++ more) frontier =
      (linker.followAll hops frontier).bind (linker.followAll more) := by
  induction hops generalizing frontier with
  | nil => rfl
  | cons hop hops ih =>
      rw [List.cons_append, followAll, followAll]
      cases linker.registry.relation? hop.relation with
      | none => rfl
      | some entry => exact ih _

/-- Hops over registered relations are followed, and put their segments behind those carried. -/
theorem exists_followAll {hops : List Hop} {more : List String}
    (hsegments : linker.segments? hops = some more) (h : Reached.Carry segments frontier) :
    ∃ next, linker.followAll hops frontier = some next ∧
      Reached.Carry (segments ++ more) next := by
  induction hops generalizing segments frontier more with
  | nil =>
      obtain rfl : [] = more := Option.some.inj hsegments
      exact ⟨frontier, rfl, by rwa [List.append_nil]⟩
  | cons hop hops ih =>
      rw [segments?_cons] at hsegments
      rw [followAll]
      cases hentry : linker.registry.relation? hop.relation with
      | none => simp [hentry] at hsegments
      | some entry =>
          simp only [hentry, Option.map_eq_some_iff] at hsegments
          obtain ⟨rest, hrest, rfl⟩ := hsegments
          obtain ⟨next, hnext, hcarry⟩ := ih hrest (carry_follow h)
          rw [entry.hopText_eq_segment, List.append_assoc] at hcarry
          exact ⟨next, hnext, hcarry⟩

theorem segments?_concat {hops : List Hop} {hop : Hop} {segments : List String}
    (h : linker.segments? (hops ++ [hop]) = some segments) :
    ∃ front entry, linker.segments? hops = some front ∧
      linker.registry.relation? hop.relation = some entry ∧
      segments = front ++ [hop.segment entry.id] := by
  rw [segments?_append] at h
  obtain ⟨front, hfront, h⟩ := Option.bind_eq_some_iff.1 h
  obtain ⟨last, hlast, h⟩ := Option.bind_eq_some_iff.1 h
  rw [segments?_cons] at hlast
  cases hentry : linker.registry.relation? hop.relation with
  | none => simp [hentry] at hlast
  | some entry =>
      rw [hentry] at hlast
      obtain rfl := Option.some.inj hlast
      obtain rfl := Option.some.inj h
      exact ⟨front, entry, hfront, rfl, rfl⟩

theorem variants_of_unregistered {path : Path} (scope : Scope)
    (h : linker.segments? path.hops = none) : linker.variants path scope = [] := by
  rw [variants_eq_distinct, walkTexts, h]
  rfl

/-- However long the path and however many types it starts from, all that is reached after a hop
carries the id forms of the hops up to it. The types reached are the targets of that hop, each of
them once, unless nothing was reached before it. -/
theorem frontier_after_hop (path : Path) (scope : Scope) {before after : List Hop} {hop : Hop}
    (hpath : path.hops = before ++ hop :: after) :
    let start : List Reached := scope.types.map fun type => ⟨type, []⟩
    match linker.segments? (before ++ [hop]) with
    | none => linker.variants path scope = []
    | some segments => ∃ frontier next, linker.followAll before start = some frontier ∧
        linker.followAll (before ++ [hop]) start = some next ∧
        linker.followAll path.hops start = linker.followAll after next ∧
        Reached.Carry segments next ∧ linker.Collapses hop frontier next := by
  intro start
  have hstart : Reached.Carry [] start := List.forall_mem_map.2 fun _ _ => rfl
  cases hsegments : linker.segments? (before ++ [hop]) with
  | none =>
      apply linker.variants_of_unregistered scope
      rw [hpath, List.append_cons, segments?_append, hsegments]
      rfl
  | some segments =>
      obtain ⟨front, entry, hfront, hentry, rfl⟩ := linker.segments?_concat hsegments
      obtain ⟨frontier, hfrontier, hcarry⟩ := linker.exists_followAll hfront hstart
      rw [List.nil_append] at hcarry
      have hnext : linker.followAll (before ++ [hop]) start =
          some (follow entry hop.direction frontier) := by
        rw [followAll_append, hfrontier, Option.bind_some, followAll, hentry]
        rfl
      refine ⟨frontier, _, hfrontier, hnext, ?_, ?_, collapses_follow hentry hcarry⟩
      · rw [hpath, List.append_cons, followAll_append, hnext, Option.bind_some]
      · rw [← entry.hopText_eq_segment]
        exact carry_follow hcarry

/-- A library whose relations list some of the types that they lead to more than once. -/
def repeatingLibrary : Linker := ⟨{ relations := some (.ofList [
  ("wrote", { id := "R1", domain := ["author"], range := ["book", "article", "book"] }),
  ("cites", { id := "R2", domain := ["book"], range := ["article", "book", "article"] })]) },
  .empty⟩

/-- From an author that is twice in scope and from an editor, two hops lead to two types. -/
theorem citations_lead_to_two_types :
    let scope : Scope := ⟨[.entity "author", .entity "editor", .entity "author"], []⟩
    ∃ next, repeatingLibrary.followAll [⟨.forward, "wrote"⟩, ⟨.forward, "cites"⟩]
        (scope.types.map fun type => ⟨type, []⟩) = some next ∧
      Reached.Carry ["$r_R1", "$r_R2"] next ∧
      next.map Reached.type = [.entity "article", .entity "book"] := by
  intro scope
  have hpath : (⟨[⟨.forward, "wrote"⟩, ⟨.forward, "cites"⟩], .displayName⟩ : Path).hops =
      [⟨.forward, "wrote"⟩] ++ ⟨.forward, "cites"⟩ :: [] := rfl
  obtain ⟨frontier, next, hfrontier, hnext, -, hcarry, hcollapses⟩ :=
    repeatingLibrary.frontier_after_hop _ scope hpath
  have hne : frontier ≠ [] := by
    rintro rfl
    revert hfrontier
    decide
  exact ⟨next, hnext, hcarry, hcollapses.targets hne⟩

end Linker

end SchemaLink
