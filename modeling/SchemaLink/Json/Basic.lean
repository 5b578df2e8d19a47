import SchemaLink.Json.Number

/-! # JSON values -/

namespace SchemaLink

/-- A JSON value. The members of an object stand in the order in which they are written. -/
inductive Json where
  | null
  | bool (value : Bool)
  | number (value : Json.Number)
  | string (value : String)
  | list (items : List Json)
  | object (members : List (String × Json))

namespace Json

/-- The deepest nesting of lists and objects that is kept. -/
def depthLimit : Nat := 127

end Json

end SchemaLink
