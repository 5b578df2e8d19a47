import SchemaLink.Distinct
import SchemaLink.Json.Record
import SchemaLink.TypeRef

/-! # Recorded ids

Field ids outlive a compilation. Those of earlier output are recorded by type and
system name, in the order in which they were found. -/

namespace SchemaLink

open Json (Record Fault Reader)

/-- The ids on record for the fields of each type, by system name. -/
structure History where
  types : SortedMap TypeRef (SortedMap String (List String))

/-- The system name of a field of earlier output. -/
def recordedFieldForm : Record String where
  members := [.of "system_name" .required (fun _ => Reader.string) fun _ name => name]
  blank := ""

/-- The data section of earlier output: system names by field id. -/
def recordedDataForm : Record (SortedMap String String) where
  members := [.of "fields" .defaulted (Reader.dict recordedFieldForm.read) fun _ fields => fields]
  blank := ∅

/-- Earlier output, of which only the ids in its data section are read. -/
def recordedDocumentForm : Record (Option (SortedMap String String)) where
  members := [
    .of "data" .optional (fun depth => (recordedDataForm.read depth).nullable) fun _ data => data]
  blank := none

namespace History

def empty : History := ⟨∅⟩

/-- All ids on record for a field of a type. -/
def ids (history : History) (type : TypeRef) (name : String) : List String :=
  ((history.types.find? type).bind fun fields => fields.find? name).getD []

/-- The first id on record for a field of a type. -/
def first? (history : History) (type : TypeRef) (name : String) : Option String :=
  (history.ids type name).head?

/-- Nothing is on record. -/
def isEmpty (history : History) : Bool :=
  history.types.values.all SortedMap.isEmpty

/-- Put an id on record unless it is there already. -/
def insert (history : History) (type : TypeRef) (name id : String) : History :=
  let fields := (history.types.find? type).getD ∅
  ⟨history.types.insert type (fields.insert name (insertNew ((fields.find? name).getD []) id))⟩

/-- The system names by id in the text of earlier output, if it is such a text. -/
def readOutput (text : String) : Except Fault (SortedMap String String) :=
  (recordedDocumentForm.parse text).map fun data => data.getD ∅

/-- Record every field of earlier output of a type, in the order of their ids. -/
def absorb (history : History) (type : TypeRef) (names : SortedMap String String) : History :=
  names.toList.foldl (fun history field => history.insert type field.2 field.1) history

/-- Record the fields in the text of earlier output, and count them. -/
def absorbText (history : History) (type : TypeRef) (text : String) :
    Except Fault (Nat × History) :=
  (readOutput text).map fun names => (names.size, history.absorb type names)

end History

end SchemaLink
