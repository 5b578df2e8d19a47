import SchemaLink.Toml.Moment
import SchemaLink.Toml.Number

/-! # Values of TOML text

A value is a scalar, a list, or a table on one line. The keys of a table may have
dots, and no key may give or enter what another one gives. -/

namespace SchemaLink.Toml

inductive Value where
  | string (text : String)
  | integer (value : Int)
  /-- A number that is no integer, as it is written. -/
  | float (text : String)
  | boolean (value : Bool)
  /-- A date, a time or both, as it is written. -/
  | moment (text : String)
  | list (items : List Value)
  | table (members : List (List String × Value))

/-- Lists and tables nest no deeper, and no more keys stand in a row. -/
def nestingLimit : Nat := 79

/-- Skip blanks, line breaks and comments. -/
def skipLayout (comment : Bool) : List Char → List Char
  | [] => []
  | '\n' :: rest => skipLayout false rest
  | '\r' :: '\n' :: rest => skipLayout false rest
  | c :: rest =>
    if comment then if isPlain c then skipLayout true rest else c :: rest
    else if isBlank c then skipLayout false rest
    else if c = '#' then skipLayout true rest
    else c :: rest

/-! ## Keys -/

def isBareKeyChar (c : Char) : Bool := c.isAlphanum || c == '_' || c == '-'

def asString (found : List Char × List Char) : String × List Char :=
  (String.ofList found.1, found.2)

def readKey : List Char → Option (String × List Char)
  | '"' :: rest => (readQuoted rest).map asString
  | '\'' :: rest => (readLiteral rest).map asString
  | text =>
    let key := text.takeWhile isBareKeyChar
    if key.isEmpty then none else some (asString (key, text.dropWhile isBareKeyChar))

/-- Keys with dots between them, no more than a number of them. -/
def readKeysUpTo : Nat → List Char → Option (List String × List Char)
  | 0, _ => none
  | count + 1, text => do
    let (key, rest) ← readKey (skipBlanks text)
    match skipBlanks rest with
    | '.' :: rest =>
      let (keys, rest) ← readKeysUpTo count rest
      some (key :: keys, rest)
    | rest => some ([key], rest)

/-- Keys with dots between them. -/
def readKeys (text : List Char) : Option (List String × List Char) :=
  readKeysUpTo nestingLimit text

/-- Neither row of keys starts with the other one. -/
def areApart (keys others : List String) : Bool :=
  !keys.isPrefixOf others && !others.isPrefixOf keys

/-- The members of a table each give something of their own. -/
def areDisjoint : List (List String × Value) → Bool
  | [] => true
  | (keys, _) :: members =>
    members.all (fun member => areApart keys member.1) && areDisjoint members

/-! ## Values -/

def isScalarChar (c : Char) : Bool := c.isAlphanum || c == '_' || c == '+' || c == '-' || c == '.'

def readScalar (text : List Char) : Option (Value × List Char) :=
  match afterMoment? text with
  | some rest => some (.moment (String.ofList (text.take (text.length - rest.length))), rest)
  | none =>
    let word := text.takeWhile isScalarChar
    let rest := text.dropWhile isScalarChar
    if word = "true".toList then some (.boolean true, rest)
    else if word = "false".toList then some (.boolean false, rest)
    else
      match readInteger word with
      | some value => if isInRange value then some (.integer value, rest) else none
      | none => if isFloat word then some (.float (String.ofList word), rest) else none

def asValue (found : List Char × List Char) : Value × List Char :=
  (.string (String.ofList found.1), found.2)

mutual

/-- A value that nests no deeper than `depth`. -/
def readValue (depth : Nat) : Nat → List Char → Option (Value × List Char)
  | 0, _ => none
  | fuel + 1, text =>
    match depth, text with
    | _, '"' :: '"' :: '"' :: rest => (readQuotedLines false (dropFirstBreak rest)).map asValue
    | _, '"' :: rest => (readQuoted rest).map asValue
    | _, '\'' :: '\'' :: '\'' :: rest => (readLiteralLines (dropFirstBreak rest)).map asValue
    | _, '\'' :: rest => (readLiteral rest).map asValue
    | 0, '[' :: _ => none
    | depth + 1, '[' :: rest => do
      let (items, rest) ← readItems depth fuel (skipLayout false rest)
      some (.list items, rest)
    | 0, '\x7b' :: _ => none
    | depth + 1, '\x7b' :: rest =>
      match skipBlanks rest with
      | '\x7d' :: rest => some (.table [], rest)
      | rest => do
        let (members, rest) ← readMembers depth fuel rest
        if areDisjoint members then some (.table members, rest) else none
    | _, text => readScalar text

/-- The items of a list; a comma may follow the last one. -/
def readItems (depth : Nat) : Nat → List Char → Option (List Value × List Char)
  | 0, _ => none
  | _ + 1, ']' :: rest => some ([], rest)
  | fuel + 1, text =>
    match readValue depth fuel text with
    | none => none
    | some (item, rest) =>
      match skipLayout false rest with
      | ',' :: rest =>
        (readItems depth fuel (skipLayout false rest)).map fun (items, rest) =>
          (item :: items, rest)
      | ']' :: rest => some ([item], rest)
      | _ => none

/-- The members of a table on one line; no comma may follow the last one. -/
def readMembers (depth : Nat) :
    Nat → List Char → Option (List (List String × Value) × List Char)
  | 0, _ => none
  | fuel + 1, text =>
    match readKeys text with
    | some (keys, '=' :: rest) =>
      match readValue depth fuel (skipBlanks rest) with
      | none => none
      | some (value, rest) =>
        match skipBlanks rest with
        | ',' :: rest =>
          (readMembers depth fuel rest).map fun (members, rest) =>
            ((keys, value) :: members, rest)
        | '\x7d' :: rest => some ([(keys, value)], rest)
        | _ => none
    | _ => none

end

end SchemaLink.Toml
