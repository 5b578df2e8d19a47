import SchemaLink.Registry.Basic
import SchemaLink.Text.Quoted

/-! # Advisories

Findings that do not end a compilation. -/

namespace SchemaLink

inductive AdvisoryCategory where
  /-- A registry was not supplied. -/
  | missingRegistry
  /-- A template with paths has no text left. -/
  | emptyResolution
  /-- A system name is declared again in one type. -/
  | duplicateField
  /-- A relation document disagrees with the relation registry. -/
  | domainMismatch
  deriving DecidableEq, Repr

def AdvisoryCategory.label : AdvisoryCategory → String
  | missingRegistry => "missing-registry"
  | emptyResolution => "empty-resolution"
  | duplicateField => "duplicate-field"
  | domainMismatch => "domain-mismatch"

structure Advisory where
  category : AdvisoryCategory
  /-- The registry, the type or the place in a document that it is about. -/
  subject : String
  message : String
  deriving DecidableEq, Repr

namespace Advisory

def text (advisory : Advisory) : String :=
  "[" ++ advisory.category.label ++ "] " ++ advisory.subject ++ ": " ++ advisory.message

def missingRegistry (kind : RegistryKind) : Advisory where
  category := .missingRegistry
  subject := kind.label
  message :=
    match kind with
    | .entities => "entity system names in show conditions stay unresolved"
    | .relations => "display, edit and search-index sections are omitted; " ++
        "compile again after generating the relation registry"
    | .groups => "every permission group reference will fail"

def duplicateField (owner : TypeRef) (name : String) : Advisory where
  category := .duplicateField
  subject := owner.text
  message := "field '" ++ name ++ "' is declared more than once"

def unregisteredRelation (owner : TypeRef) : Advisory where
  category := .domainMismatch
  subject := owner.text
  message := "relation is not present in the relation registry"

/-- The entity types at one end of a relation differ; `side` names the end. -/
def domainMismatch (owner : TypeRef) (side : String) (declared registered : List String) :
    Advisory where
  category := .domainMismatch
  subject := owner.text
  message := "declared " ++ side ++ " " ++ Text.quoteList declared ++
    " differs from registry " ++ Text.quoteList registered

/-- A template at a place in the document of a type has no text left. -/
def emptyResolution (owner : TypeRef) (place template : String) (unresolved : List String) :
    Advisory where
  category := .emptyResolution
  subject := owner.text ++ " " ++ place
  message := "'" ++ template ++ "' resolves to nothing (unresolved: " ++
    ", ".intercalate unresolved ++ ")"

end Advisory

end SchemaLink
