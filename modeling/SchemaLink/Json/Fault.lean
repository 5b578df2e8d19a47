/-! # Faults of JSON text -/

namespace SchemaLink.Json

/-- Why a text is refused. -/
inductive Fault where
  /-- The text is not JSON. -/
  | malformed
  /-- The text ends too early. -/
  | unfinished
  /-- The text is JSON of another shape than the one asked for. -/
  | misshapen
  deriving DecidableEq, Repr

end SchemaLink.Json
