import SchemaLink.Linker.Variants
import SchemaLink.Proofs.Distinct
import SchemaLink.Proofs.Text.Pieces

/-! # Field ids at the end of variants

A variant ends in the text of the terminal of its path. If the terminal names a field,
that is the id which the field has on a type that the path reaches. -/

namespace SchemaLink

/-! ## Types reached -/

/-- The field that a terminal names, if it names one. -/
def Terminal.fieldName? : Terminal → Option String
  | ownProperty property => some property
  | hopProperty _ property => some property
  | field name => some name
  | hop _ | displayName | entityTypeName => none

/-- The hop arrives at an entity type. -/
def Hop.Arrives (registry : Registry) (hop : Hop) (type : TypeRef) : Prop :=
  ∃ entry, registry.relation? hop.relation = some entry ∧
    ∃ target ∈ entry.targets hop.direction, type = .entity target

/-- The types that the hops of a path lead to. -/
def Path.Leads (registry : Registry) (path : Path) (scope : Scope) (type : TypeRef) : Prop :=
  match path.hops.getLast? with
  | none => type ∈ scope.types
  | some hop => hop.Arrives registry type

/-- The types whose fields the terminal of a path may name: a relation in scope, the relation of
the hop it is bound to, or else a type that the hops lead to. -/
def Path.Reaches (registry : Registry) (path : Path) (scope : Scope) (type : TypeRef) : Prop :=
  match path.terminal with
  | .ownProperty _ => ∃ relation ∈ scope.relations, type = .relation relation
  | .hopProperty hop _ => type = .relation hop.relation
  | _ => path.Leads registry scope type

namespace Linker

variable {linker : Linker}

theorem mem_follow {entry : RelationEntry} {direction : Direction} {frontier : List Reached}
    {reached : Reached} (h : reached ∈ follow entry direction frontier) :
    ∃ target ∈ entry.targets direction, reached.type = .entity target := by
  rw [follow, mem_distinct] at h
  rcases List.mem_flatMap.1 h with ⟨before, -, h⟩
  rcases List.mem_map.1 h with ⟨target, htarget, rfl⟩
  exact ⟨target, htarget, rfl⟩

/-- Hops lead to the same wherever their relations are registered alike. -/
theorem followAll_congr {other : Linker} {hops : List Hop}
    (h : ∀ hop ∈ hops,
      other.registry.relation? hop.relation = linker.registry.relation? hop.relation)
    (frontier : List Reached) : other.followAll hops frontier = linker.followAll hops frontier := by
  induction hops generalizing frontier with
  | nil => rfl
  | cons hop hops ih =>
      obtain ⟨hhop, hhops⟩ := List.forall_mem_cons.1 h
      simp only [followAll, hhop, ih hhops]

/-- What is reached in the end is where the last hop arrives. -/
theorem mem_followAll {hops : List Hop} {frontier final : List Reached} {reached : Reached}
    (h : linker.followAll hops frontier = some final) (hmem : reached ∈ final) :
    match hops.getLast? with
    | none => reached ∈ frontier
    | some hop => hop.Arrives linker.registry reached.type := by
  induction hops generalizing frontier with
  | nil => cases h; exact hmem
  | cons hop hops ih =>
      rw [followAll] at h
      cases hentry : linker.registry.relation? hop.relation with
      | none => rw [hentry] at h; cases h
      | some entry =>
          rw [hentry] at h
          have hlast := ih h
          rw [List.getLast?_cons]
          cases hlater : hops.getLast? with
          | none =>
              rw [hlater] at hlast
              exact ⟨entry, hentry, mem_follow hlast⟩
          | some last =>
              rw [hlater] at hlast
              exact hlast

theorem leads_of_followAll {path : Path} {scope : Scope} {final : List Reached} {reached : Reached}
    (h : linker.followAll path.hops (scope.types.map fun type => ⟨type, []⟩) = some final)
    (hmem : reached ∈ final) : path.Leads linker.registry scope reached.type := by
  have hlast := mem_followAll h hmem
  unfold Path.Leads
  cases hhop : path.hops.getLast? with
  | none =>
      rw [hhop] at hlast
      rcases List.mem_map.1 hlast with ⟨type, htype, rfl⟩
      exact htype
  | some hop => rwa [hhop] at hlast

/-! ## Ends of variants -/

/-- The text of a terminal that names a field ends in the id of the field. -/
theorem exists_id_of_terminalTexts {scope : Scope} {type : TypeRef} {path : Path}
    {text name : String}
    (hname : path.terminal.fieldName? = some name)
    (htype : path.Leads linker.registry scope type)
    (h : text ∈ linker.terminalTexts scope type path.terminal) :
    ∃ owner front id, path.Reaches linker.registry scope owner ∧
      linker.symbols.fieldId? owner name = some id ∧ text = front ++ "$" ++ id := by
  unfold Path.Reaches
  cases hterminal : path.terminal with
  | ownProperty property =>
      rw [hterminal] at h hname
      cases hname
      rcases List.mem_filterMap.1 h with ⟨relation, hrelation, htext⟩
      rcases Option.map_eq_some_iff.1 htext with ⟨id, hid, rfl⟩
      exact ⟨.relation relation, ".", id, ⟨relation, hrelation, rfl⟩, hid, rfl⟩
  | hopProperty hop property =>
      rw [hterminal] at h hname
      cases hname
      simp only [terminalTexts] at h
      split at h
      · next entry id hentry hid =>
          obtain rfl := List.mem_singleton.1 h
          refine ⟨.relation hop.relation, entry.hopText hop.direction ++ ".", id, rfl, hid, ?_⟩
          simp [← String.toList_inj]
      · cases h
  | field found =>
      rw [hterminal] at h hname
      cases hname
      simp only [terminalTexts] at h
      split at h
      · next id hid =>
          obtain rfl := List.mem_singleton.1 h
          exact ⟨type, "", id, htype, hid, by simp⟩
      · cases h
  | hop | displayName | entityTypeName => rw [hterminal] at hname; cases hname

/-- A variant of a path that names a field ends in the id of the field. -/
theorem exists_id_of_mem_variants {path : Path} {scope : Scope} {variant name : String}
    (hname : path.terminal.fieldName? = some name) (h : variant ∈ linker.variants path scope) :
    ∃ owner front id, path.Reaches linker.registry scope owner ∧
      linker.symbols.fieldId? owner name = some id ∧ variant = front ++ "$" ++ id := by
  rw [variants] at h
  split at h
  · cases h
  · next frontier hfrontier =>
      rw [mem_distinct] at h
      rcases List.mem_flatMap.1 h with ⟨reached, hreached, h⟩
      rcases List.mem_map.1 h with ⟨last, hlast, rfl⟩
      obtain ⟨owner, front, id, howner, hid, rfl⟩ := exists_id_of_terminalTexts hname
        (leads_of_followAll hfrontier hreached) hlast
      obtain ⟨first, hfirst⟩ := Text.exists_front_intercalate "->" reached.segments
      refine ⟨owner, first ++ front, id, howner, hid, ?_⟩
      rw [hfirst]
      simp [String.append_assoc]

end Linker

end SchemaLink
