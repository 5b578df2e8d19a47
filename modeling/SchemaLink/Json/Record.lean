import SchemaLink.Json.Reader

/-! # Records

A record is an object whose modelled keys may each stand once. A closed record
skips all other keys and may also be written as the list of its members; an open
one keeps them. -/

namespace SchemaLink.Json

/-- When a member may be left out. -/
inductive Presence where
  /-- Never. -/
  | required
  /-- In an object, but not in a list. -/
  | optional
  /-- In an object, and with all that follow in a list. -/
  | defaulted
  deriving DecidableEq, Repr

/-- A modelled key of a record, and how its value is read into the record. -/
structure Member (α : Type) where
  key : String
  presence : Presence
  read : Nat → α → Reader α

/-- A member that is stored as it is read. -/
def Member.of (key : String) (presence : Presence) (reader : Nat → Reader β)
    (store : α → β → α) : Member α :=
  ⟨key, presence, fun depth record => (reader depth).map (store record)⟩

/-- The written form of a record: its members in order, and what is done with other keys. -/
structure Record (α : Type) where
  members : List (Member α)
  /-- The record before anything is read. -/
  blank : α
  /-- How an open record keeps a key that is not modelled. -/
  keep : Option (α → String → Json → α) := none

namespace Record

variable {α : Type}

/-- Read what follows a key into a record, given the modelled keys that came before. -/
def readMember (form : Record α) (depth : Nat) (key : String) (state : α × List String) :
    Reader (α × List String) :=
  let (record, seen) := state
  match form.members.find? fun member => member.key == key with
  | some member =>
    if seen.contains key then fun _ => .error .misshapen
    else .afterColon <| (member.read depth record).map fun record => (record, key :: seen)
  | none =>
    .afterColon <|
      match form.keep with
      | none => Reader.skip.map fun _ => (record, seen)
      | some keep => (Reader.value depth).map fun v => (keep record key v, seen)

/-- A record from after its opening brace. -/
def readMembers (form : Record α) (depth : Nat) : Reader α := fun tokens =>
  match Reader.members (form.readMember depth) (form.blank, []) tokens with
  | .error fault => .error fault
  | .ok ((record, seen), rest) =>
    if form.members.all fun member => member.presence != .required || seen.contains member.key then
      .ok (record, rest)
    else .error .misshapen

/-- A list may end where only members with defaults are left. -/
def readEnd (members : List (Member α)) (record : α) (rest : List Token) :
    Except Fault (α × List Token) :=
  if members.all fun member => member.presence == .defaulted then .ok (record, rest)
  else .error .misshapen

/-- Members by position, after the first one and through the closing bracket. -/
def readMorePositions (depth : Nat) : List (Member α) → α → Reader α
  | members, record, .closeList :: rest => readEnd members record rest
  | member :: members, record, .comma :: rest =>
    match member.read depth record rest with
    | .error fault => .error fault
    | .ok (record, rest) => readMorePositions depth members record rest
  | _, _, [] => .error .unfinished
  | _, _, _ => .error .malformed

/-- Members by position, from after the opening bracket. -/
def readPositions (form : Record α) (depth : Nat) : Reader α := fun tokens =>
  match form.members, tokens with
  | members, .closeList :: rest => readEnd members form.blank rest
  | [], [] => .error .unfinished
  | [], _ => .error .malformed
  | member :: members, tokens =>
    match member.read depth form.blank tokens with
    | .error fault => .error fault
    | .ok (record, rest) => readMorePositions depth members record rest

def read (form : Record α) (depth : Nat) : Reader α
  | .openObject :: rest =>
    match depth with
    | 0 => .error .malformed
    | depth + 1 => form.readMembers depth rest
  | .openList :: rest =>
    if form.keep.isSome then .error .misshapen
    else
      match depth with
      | 0 => .error .malformed
      | depth + 1 => form.readPositions depth rest
  | tokens => Reader.mismatch tokens

/-- The record that a text spells. -/
def parse (form : Record α) (text : String) : Except Fault α := (form.read depthLimit).run text

end Record

end SchemaLink.Json
