import SchemaLink.Json.Record
import SchemaLink.Registry.Basic

/-! # Reading registries

Tables are objects by system name. Some values have more than one written form;
such a value is read as a whole before its form is looked at. -/

namespace SchemaLink

open Json (Record Fault Reader)

/-- The strings of a list that holds nothing else. -/
def stringItems? : List Json → Option (List String)
  | [] => some []
  | .string text :: items => (stringItems? items).map (text :: ·)
  | _ :: _ => none

/-- Entity types: a list, a single name, or null for none. -/
def readEntityNames (depth : Nat) : Reader (List String)
  | .null :: rest => .ok ([], rest)
  | tokens =>
    match Reader.value depth tokens with
    | .error fault => .error fault
    | .ok (.string name, rest) => .ok ([name], rest)
    | .ok (.list items, rest) =>
      match stringItems? items with
      | some names => .ok (names, rest)
      | none => .error .misshapen
    | .ok _ => .error .misshapen

/-- An entity entry, of which only the id is kept. -/
def entityForm : Record String where
  members := [.of "id" .required (fun _ => Reader.string) fun _ id => id]
  blank := ""

def RelationEntry.form : Record RelationEntry where
  members := [
    .of "id" .required (fun _ => Reader.string) fun entry id => { entry with id := id },
    .of "domain" .defaulted readEntityNames fun entry names => { entry with domain := names },
    .of "range" .defaulted readEntityNames fun entry names => { entry with range := names }]
  blank := { id := "" }

/-- The values of a key among members that may repeat it. -/
def valuesOf (key : String) (members : List (String × Json)) : List Json :=
  (members.filter fun member => member.1 == key).map Prod.snd

/-- All members of an object in order, repetitions included. -/
def readAllMembers (depth : Nat) : Reader (List (String × Json)) :=
  Reader.members
    (fun key found => .afterColon <|
      (Reader.value depth).map fun value => found ++ [(key, value)]) []

/-- A group entry: a bare id, or an object that has one. -/
def readGroupEntry (depth : Nat) : Reader String
  | .openObject :: rest =>
    match depth with
    | 0 => .error .malformed
    | depth + 1 =>
      match readAllMembers depth rest with
      | .error fault => .error fault
      | .ok (members, rest) =>
        match valuesOf "id" members with
        | [.string id] => .ok (id, rest)
        | _ => .error .misshapen
  | tokens =>
    match Reader.value depth tokens with
    | .error fault => .error fault
    | .ok (.string id, rest) => .ok (id, rest)
    | .ok _ => .error .misshapen

namespace Registry

def parseEntities (text : String) : Except Fault EntityTable :=
  (Reader.dict entityForm.read Json.depthLimit).run text

def parseRelations (text : String) : Except Fault RelationTable :=
  (Reader.dict RelationEntry.form.read Json.depthLimit).run text

def parseGroups (text : String) : Except Fault GroupTable :=
  (Reader.dict (Reader.dict readGroupEntry) Json.depthLimit).run text

end Registry

end SchemaLink
