import SchemaLink.Registry.Basic

/-! # Entity names in conditions

A condition names entity types by system name after a dollar sign. One pass from
the left puts ids in their place; the longest name that fits is taken, and ids
are not read again. -/

namespace SchemaLink

/-- What is left of a text after its leading part, if it starts with that part. -/
def stripLeading? : List Char → List Char → Option (List Char)
  | [], text => some text
  | _ :: _, [] => none
  | c :: cs, d :: ds => if c = d then stripLeading? cs ds else none

theorem stripLeading?_length {part text rest : List Char}
    (h : stripLeading? part text = some rest) : rest.length ≤ text.length := by
  fun_induction stripLeading? part text <;> grind

/-- Insert a name before the first one that is not longer, lengths counted in bytes. -/
def insertByLength (entry : String × String) : List (String × String) → List (String × String)
  | [] => [entry]
  | other :: others =>
    if other.1.utf8ByteSize ≤ entry.1.utf8ByteSize then entry :: other :: others
    else other :: insertByLength entry others

namespace Registry

/-- Entity names with their ids, longest first; names of one length stand in order. -/
def namesLongestFirst (registry : Registry) : List (String × String) :=
  match registry.entities with
  | none => []
  | some table => table.toList.foldr insertByLength []

end Registry

/-- The first of the names that a text starts with, as its id and the text after it. -/
def matchName? (names : List (String × String)) (text : List Char) :
    Option (String × List Char) :=
  names.findSome? fun (name, id) => (stripLeading? name.toList text).map fun rest => (id, rest)

theorem matchName?_length {names : List (String × String)} {text : List Char}
    {found : String × List Char} (h : matchName? names text = some found) :
    found.2.length ≤ text.length := by
  obtain ⟨entry, -, hentry⟩ := List.exists_of_findSome?_eq_some h
  obtain ⟨rest, hrest, rfl⟩ := Option.map_eq_some_iff.1 hentry
  exact stripLeading?_length hrest

/-- Put ids in the place of the names that follow dollar signs. -/
def replaceNames (names : List (String × String)) (text : List Char) : List Char :=
  match text with
  | [] => []
  | '$' :: rest =>
    match _h : matchName? names rest with
    | some (id, after) => '$' :: id.toList ++ replaceNames names after
    | none => '$' :: replaceNames names rest
  | c :: rest => c :: replaceNames names rest
termination_by text.length
decreasing_by
  · exact Nat.lt_succ_of_le (matchName?_length ‹_›)
  all_goals simp

/-- A condition with entity ids in the place of entity names. -/
def Registry.resolveNames (registry : Registry) (condition : String) : String :=
  String.ofList (replaceNames registry.namesLongestFirst condition.toList)

end SchemaLink
