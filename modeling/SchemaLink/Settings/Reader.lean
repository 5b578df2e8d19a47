import SchemaLink.Settings.Basic
import SchemaLink.Toml.Statement

/-! # Reading settings

Settings stand in three sections. A section is given once, under a header, by keys
with its name before a dot, or as a value; no key may be given twice, and no other
keys are allowed. -/

namespace SchemaLink.Settings

open Toml (Statement Value)

/-- The keys of a section, in order. -/
def sectionKeys? : String → Option (List String)
  | "paths" => some ["input", "output"]
  | "registries" => some ["entities", "relations", "groups"]
  | "output" => some ["indent"]
  | _ => none

/-- Settings on the way through a text. -/
structure Draft where
  settings : Settings := {}
  /-- The section that plain keys belong to, once there was a header. -/
  current : Option String := none
  /-- The sections that are complete or have a header. -/
  closed : List String := []
  /-- The sections that were given by keys with dots. -/
  opened : List String := []
  /-- The keys given so far. -/
  given : List (String × String) := []

namespace Draft

/-- Give a key of a section its value. -/
def assign (draft : Draft) (part key : String) (value : Value) : Option Draft :=
  if draft.given.contains (part, key) then none
  else
    let settings? : Option Settings :=
      match part, key, value with
      | "paths", "input", .string text => some { draft.settings with inputDirectory := text }
      | "paths", "output", .string text => some { draft.settings with outputDirectory := text }
      | "registries", "entities", .string text =>
        some { draft.settings with entityRegistry := text }
      | "registries", "relations", .string text =>
        some { draft.settings with relationRegistry := text }
      | "registries", "groups", .string text => some { draft.settings with groupRegistry := text }
      | "output", "indent", .integer width =>
        if 0 ≤ width then some { draft.settings with indent := width.toNat } else none
      | _, _, _ => none
    settings?.map fun settings =>
      { draft with settings := settings, given := (part, key) :: draft.given }

/-- Close a section that was not given in any way before. -/
def close (draft : Draft) (part : String) : Option Draft :=
  if (sectionKeys? part).isNone || draft.closed.contains part || draft.opened.contains part then
    none
  else some { draft with closed := part :: draft.closed }

/-- Give a section as a table. -/
def assignMembers (draft : Draft) (part : String) :
    List (List String × Value) → Option Draft
  | [] => some draft
  | ([key], value) :: members => do assignMembers (← draft.assign part key value) part members
  | _ => none

/-- Give a section as a list, with a value for every key; more values are left over. -/
def assignItems (draft : Draft) (part : String) : List String → List Value → Option Draft
  | [], _ => some draft
  | _ :: _, [] => none
  | key :: keys, value :: values => do
    assignItems (← draft.assign part key value) part keys values

def step (draft : Draft) : Statement → Option Draft
  | .header [part] => do some { (← draft.close part) with current := some part }
  | .header _ | .itemHeader _ => none
  | .assignment keys value =>
    match draft.current, keys, value with
    | some part, [key], value => draft.assign part key value
    | none, [part, key], value =>
      if draft.closed.contains part then none
      else { draft with opened := part :: draft.opened }.assign part key value
    | none, [part], .table members => do (← draft.close part).assignMembers part members
    | none, [part], .list items => do
      (← draft.close part).assignItems part (← sectionKeys? part) items
    | _, _, _ => none

end Draft

/-- The settings that a text spells, if it is well formed and allowed. -/
def parse (text : String) : Option Settings := do
  let statements ← Toml.parse text
  let draft ← statements.foldlM Draft.step {}
  some draft.settings

end SchemaLink.Settings
