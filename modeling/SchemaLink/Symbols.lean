import SchemaLink.SortedMap
import SchemaLink.TypeRef

/-! # Field lookups

The ids of the fields of each type, by system name, as published for the paths
that reach the type. -/

namespace SchemaLink

/-- The field ids of one type by system name. -/
structure FieldLookup where
  ids : SortedMap String String

namespace FieldLookup

/-- The lookup of a type without fields: the name `id` stands for itself. -/
def initial : FieldLookup := ⟨SortedMap.empty.insert "id" "id"⟩

def insert (lookup : FieldLookup) (name id : String) : FieldLookup :=
  ⟨lookup.ids.insert name id⟩

def find? (lookup : FieldLookup) (name : String) : Option String := lookup.ids.find? name

def size (lookup : FieldLookup) : Nat := lookup.ids.size

/-- The lookup of fields declared in order; the last declaration of a name counts. -/
def ofList (fields : List (String × String)) : FieldLookup :=
  fields.foldl (fun lookup field => lookup.insert field.1 field.2) initial

end FieldLookup

/-- The published lookups of all types. -/
structure SymbolTable where
  lookups : SortedMap TypeRef FieldLookup

namespace SymbolTable

def empty : SymbolTable := ⟨SortedMap.empty⟩

/-- Publish the lookup of a type in place of an earlier one. -/
def publish (symbols : SymbolTable) (type : TypeRef) (lookup : FieldLookup) : SymbolTable :=
  ⟨symbols.lookups.insert type lookup⟩

def lookup? (symbols : SymbolTable) (type : TypeRef) : Option FieldLookup :=
  symbols.lookups.find? type

/-- The id of a field of a type, if the type has published such a field. -/
def fieldId? (symbols : SymbolTable) (type : TypeRef) (name : String) : Option String :=
  (symbols.lookup? type).bind fun lookup => lookup.find? name

end SymbolTable

end SchemaLink
