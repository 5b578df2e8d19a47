import SchemaLink.TypeRef

/-! # Fatal findings

A permission group that cannot be resolved ends a compilation. The error names
the types on the way to the reference. -/

namespace SchemaLink

inductive LinkError where
  /-- The reference is not a project and a group with one dot between them. -/
  | malformedGroup (reference : String)
  | unknownGroup (reference : String)
  /-- An error in the document of a type. -/
  | inType (owner : TypeRef) (cause : LinkError)
  deriving DecidableEq, Repr

namespace LinkError

def message : LinkError → String
  | malformedGroup reference =>
    "malformed group reference '" ++ reference ++ "': expected '<project>.<group>'"
  | unknownGroup reference => "unknown group '" ++ reference ++ "'"
  | inType owner cause => owner.text ++ ": " ++ cause.message

/-- The error without the types around it. -/
def root : LinkError → LinkError
  | inType _ cause => cause.root
  | error => error

end LinkError

end SchemaLink
