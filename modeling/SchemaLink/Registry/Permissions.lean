import SchemaLink.LinkError
import SchemaLink.Registry.Basic
import SchemaLink.Text.Pieces

/-! # Permission groups

A group is referred to by its project and its name with a dot between them, and
resolves to the id it has in the group table. -/

namespace SchemaLink

/-- Groups allowed to perform each action, by reference when authored and by id when compiled. -/
abbrev Permissions := SortedMap String (List String)

namespace Registry

/-- The id of the group that a reference names. -/
def resolveGroup (registry : Registry) (reference : String) : Except LinkError String :=
  match Text.pieces '.' reference with
  | [project, group] =>
    match registry.groupId? project group with
    | some id => .ok id
    | none => .error (.unknownGroup reference)
  | _ => .error (.malformedGroup reference)

def resolveGroups (registry : Registry) (references : List String) :
    Except LinkError (List String) :=
  references.mapM registry.resolveGroup

/-- Resolve every reference of a permission table, actions in order. -/
def resolvePermissions (registry : Registry) (permissions : Permissions) :
    Except LinkError Permissions :=
  permissions.traverse fun _ references => registry.resolveGroups references

end Registry

end SchemaLink
