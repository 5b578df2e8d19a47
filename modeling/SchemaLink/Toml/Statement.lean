import SchemaLink.Toml.Value

/-! # Statements of TOML text

A text is a list of headers and assignments, each on a line of its own. -/

namespace SchemaLink.Toml

inductive Statement where
  /-- The start of a table. -/
  | header (keys : List String)
  /-- The start of one of several tables. -/
  | itemHeader (keys : List String)
  | assignment (keys : List String) (value : Value)

/-- The text after the end of a line, before which only blanks and a comment may stand. -/
def afterLine? (text : List Char) : Option (List Char) :=
  let rest :=
    match skipBlanks text with
    | '#' :: comment => comment.dropWhile isPlain
    | rest => rest
  if rest.isEmpty then some [] else afterBreak? rest

/-- The header or assignment at the start of a line, and the text after it. -/
def readStatement (text : List Char) : Option (Statement × List Char) :=
  match text with
  | '[' :: '[' :: rest =>
    match readKeys rest with
    | some (keys, ']' :: ']' :: rest) => some (.itemHeader keys, rest)
    | _ => none
  | '[' :: rest =>
    match readKeys rest with
    | some (keys, ']' :: rest) => some (.header keys, rest)
    | _ => none
  | text =>
    match readKeys text with
    | some (keys, '=' :: rest) =>
      (readValue nestingLimit (2 * rest.length + 2) (skipBlanks rest)).map fun (value, rest) =>
        (.assignment keys value, rest)
    | _ => none

/-- The statements of a text, of which no more than `fuel` lines are read. -/
def readLines : Nat → List Char → Option (List Statement)
  | _, [] => some []
  | 0, _ => none
  | fuel + 1, text =>
    match afterLine? text with
    | some rest => readLines fuel rest
    | none =>
      match readStatement (skipBlanks text) with
      | none => none
      | some (statement, rest) =>
        match afterLine? rest with
        | none => none
        | some rest => (readLines fuel rest).map (statement :: ·)

/-- The statements of a text, which may start with a byte order mark. -/
def parse (text : String) : Option (List Statement) :=
  let chars :=
    match text.toList with
    | '\ufeff' :: rest => rest
    | chars => chars
  readLines (chars.length + 1) chars

end SchemaLink.Toml
