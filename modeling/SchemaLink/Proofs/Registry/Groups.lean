import SchemaLink.Proofs.FirstFailure
import SchemaLink.Proofs.Text.Pieces
import SchemaLink.Registry.Permissions

/-! # References to groups

A reference resolves just if it names a project and a group in the table, with its only
dot between them. If it does not, the error tells whether its form or its names are wrong. -/

namespace SchemaLink

/-! ## References -/

/-- A reference is a project and a group with its only dot between them. -/
structure RefersTo (reference project group : String) : Prop where
  eq : reference = project ++ "." ++ group
  project : '.' ∉ project.toList
  group : '.' ∉ group.toList

theorem RefersTo.pieces {reference project group : String}
    (h : RefersTo reference project group) : Text.pieces '.' reference = [project, group] := by
  have htext : reference.toList = project.toList ++ '.' :: group.toList := by simp [h.eq]
  rw [Text.pieces, htext, Text.cutAt_append h.project, Text.cutAt_of_not_mem h.group]
  simp

theorem exists_refersTo {reference : String} (h : reference.toList.count '.' = 1) :
    ∃ project group, RefersTo reference project group := by
  have hmem : '.' ∈ reference.toList := List.count_pos_iff.1 (by omega)
  obtain ⟨project, group, htext⟩ := List.append_of_mem hmem
  rw [htext, List.count_append, List.count_cons_self] at h
  refine ⟨String.ofList project, String.ofList group, ?_, ?_, ?_⟩
  · rw [← String.toList_inj, htext]
    simp
  · rw [String.toList_ofList, ← List.count_eq_zero]
    omega
  · rw [String.toList_ofList, ← List.count_eq_zero]
    omega

/-- All references of a permission table, actions in order. -/
def Permissions.references (permissions : Permissions) : List String :=
  permissions.toList.flatMap Prod.snd

namespace Registry

variable {registry : Registry} {reference project group : String}

/-- A reference resolves if the table has the group of the project that it names. -/
def Resolves (registry : Registry) (reference : String) : Prop :=
  ∃ table project groups group id, RefersTo reference project group ∧
    registry.groups = some table ∧ table.find? project = some groups ∧
    groups.find? group = some id

/-- Why a reference does not resolve. -/
inductive Refuses (registry : Registry) (reference : String) : LinkError → Prop where
  | malformed (h : reference.toList.count '.' ≠ 1) :
      Refuses registry reference (.malformedGroup reference)
  | noTable {project group : String} (h : RefersTo reference project group)
      (hgroups : registry.groups = none) : Refuses registry reference (.unknownGroup reference)
  | unknownProject {project group : String} {table : GroupTable}
      (h : RefersTo reference project group) (htable : registry.groups = some table)
      (hproject : table.find? project = none) : Refuses registry reference (.unknownGroup reference)
  | unknownGroup {project group : String} {table : GroupTable} {groups : SortedMap String String}
      (h : RefersTo reference project group) (htable : registry.groups = some table)
      (hproject : table.find? project = some groups) (hgroup : groups.find? group = none) :
      Refuses registry reference (.unknownGroup reference)

theorem resolveGroup_of_refersTo (h : RefersTo reference project group) :
    registry.resolveGroup reference =
      match registry.groupId? project group with
      | some id => .ok id
      | none => .error (.unknownGroup reference) := by
  cases hid : registry.groupId? project group with
  | none => simp only [resolveGroup, h.pieces, hid]
  | some id => simp only [resolveGroup, h.pieces, hid]

theorem resolveGroup_of_count_ne_one (h : reference.toList.count '.' ≠ 1) :
    registry.resolveGroup reference = .error (.malformedGroup reference) := by
  rw [resolveGroup]
  split
  · next project group hpieces =>
      have hlength := congrArg List.length hpieces
      rw [Text.pieces, List.length_map, Text.length_cutAt] at hlength
      simp only [List.length_cons, List.length_nil] at hlength
      omega
  · rfl

/-- What the resolution of a reference fails with, if it fails. -/
def refusal? (registry : Registry) (reference : String) : Option LinkError :=
  failure? (registry.resolveGroup reference)

theorem resolves_or_refuses (registry : Registry) (reference : String) :
    registry.Resolves reference ∨ ∃ cause, registry.Refuses reference cause := by
  by_cases hcount : reference.toList.count '.' = 1
  · obtain ⟨project, group, hrefers⟩ := exists_refersTo hcount
    cases htable : registry.groups with
    | none => exact .inr ⟨_, .noTable hrefers htable⟩
    | some table =>
        cases hproject : table.find? project with
        | none => exact .inr ⟨_, .unknownProject hrefers htable hproject⟩
        | some groups =>
            cases hgroup : groups.find? group with
            | none => exact .inr ⟨_, .unknownGroup hrefers htable hproject hgroup⟩
            | some id =>
                exact .inl ⟨table, project, groups, group, id, hrefers, htable, hproject, hgroup⟩
  · exact .inr ⟨_, .malformed hcount⟩

theorem refusal?_of_resolves (h : registry.Resolves reference) :
    registry.refusal? reference = none := by
  rcases h with ⟨table, project, groups, group, id, hrefers, htable, hproject, hgroup⟩
  have hid : registry.groupId? project group = some id := by
    rw [groupId?, htable, Option.bind_some, hproject, Option.bind_some, hgroup]
  rw [refusal?, resolveGroup_of_refersTo hrefers, hid]
  rfl

theorem refusal?_of_refuses {cause : LinkError} (h : registry.Refuses reference cause) :
    registry.refusal? reference = some cause := by
  cases h with
  | malformed hcount =>
      rw [refusal?, resolveGroup_of_count_ne_one hcount]
      rfl
  | noTable hrefers hgroups =>
      rw [refusal?, resolveGroup_of_refersTo hrefers, groupId?, hgroups]
      rfl
  | unknownProject hrefers htable hproject =>
      rw [refusal?, resolveGroup_of_refersTo hrefers, groupId?, htable, Option.bind_some, hproject]
      rfl
  | unknownGroup hrefers htable hproject hgroup =>
      rw [refusal?, resolveGroup_of_refersTo hrefers, groupId?, htable, Option.bind_some, hproject,
        Option.bind_some, hgroup]
      rfl

theorem refusal?_eq_some_iff {cause : LinkError} :
    registry.refusal? reference = some cause ↔ registry.Refuses reference cause := by
  constructor
  · intro hrefusal
    rcases registry.resolves_or_refuses reference with hresolves | ⟨found, hfound⟩
    · cases (refusal?_of_resolves hresolves).symm.trans hrefusal
    · obtain rfl := Option.some.inj ((refusal?_of_refuses hfound).symm.trans hrefusal)
      exact hfound
  · exact refusal?_of_refuses

theorem refusal?_eq_none_iff :
    registry.refusal? reference = none ↔ registry.Resolves reference := by
  constructor
  · intro hrefusal
    rcases registry.resolves_or_refuses reference with hresolves | ⟨cause, hcause⟩
    · exact hresolves
    · cases (refusal?_of_refuses hcause).symm.trans hrefusal
  · exact refusal?_of_resolves

/-! ## Permission tables -/

/-- A permission table resolves up to the first of its references that does not. -/
theorem failure?_resolvePermissions (permissions : Permissions) :
    failure? (registry.resolvePermissions permissions) =
      permissions.references.findSome? registry.refusal? := by
  rw [resolvePermissions, failure?_traverse, Permissions.references, findSome?_flatMap]
  congr 1
  funext entry
  exact failure?_mapM registry.resolveGroup entry.2

end Registry

end SchemaLink
