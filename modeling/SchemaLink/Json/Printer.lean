import SchemaLink.Json.Basic

/-! # Writing JSON

A value is written either in one line or with one item to a line. Strings escape
quotes, backslashes and control characters, and nothing else. -/

namespace SchemaLink.Json

/-- How the items of a list or an object are set apart. -/
structure Style where
  /-- What comes before an item or a closing bracket at a level of nesting. -/
  lineBreak : Nat → List Char
  /-- What comes between a key and its value. -/
  colon : List Char

namespace Style

def compact : Style := ⟨fun _ => [], [':']⟩

/-- One item to a line, indented by `width` blanks at each level. -/
def indented (width : Nat) : Style :=
  ⟨fun level => '\n' :: List.replicate (level * width) ' ', [':', ' ']⟩

end Style

def hexDigit (n : Nat) : Char := if n < 10 then Char.ofNat (48 + n) else Char.ofNat (87 + n)

/-- How a character is written in a string. -/
def escape (c : Char) : List Char :=
  if c = '"' then ['\\', '"']
  else if c = '\\' then ['\\', '\\']
  else if c = '\x08' then ['\\', 'b']
  else if c = '\x0c' then ['\\', 'f']
  else if c = '\n' then ['\\', 'n']
  else if c = '\r' then ['\\', 'r']
  else if c = '\t' then ['\\', 't']
  else if c.toNat < 0x20 then
    ['\\', 'u', '0', '0', hexDigit (c.toNat / 16), hexDigit (c.toNat % 16)]
  else [c]

def quote (text : String) : List Char := '"' :: text.toList.flatMap escape ++ ['"']

mutual

/-- A value at a level of nesting. -/
def write (style : Style) (level : Nat) : Json → List Char
  | null => "null".toList
  | bool true => "true".toList
  | bool false => "false".toList
  | number value => value.text
  | string value => quote value
  | list [] => ['[', ']']
  | list (item :: items) =>
    '[' :: style.lineBreak (level + 1) ++ write style (level + 1) item ++
      writeItems style (level + 1) items ++ style.lineBreak level ++ [']']
  | object [] => ['\x7b', '\x7d']
  | object ((key, value) :: members) =>
    '\x7b' :: style.lineBreak (level + 1) ++ quote key ++ style.colon ++
      write style (level + 1) value ++ writeMembers style (level + 1) members ++
      style.lineBreak level ++ ['\x7d']

def writeItems (style : Style) (level : Nat) : List Json → List Char
  | [] => []
  | item :: items =>
    ',' :: style.lineBreak level ++ write style level item ++ writeItems style level items

def writeMembers (style : Style) (level : Nat) : List (String × Json) → List Char
  | [] => []
  | (key, value) :: members =>
    ',' :: style.lineBreak level ++ quote key ++ style.colon ++ write style level value ++
      writeMembers style level members

end

def render (style : Style) (value : Json) : String := String.ofList (write style 0 value)

/-- The text of a value in one line. -/
def compactText (value : Json) : String := value.render .compact

/-- The text of a value with one item to a line. -/
def indentedText (width : Nat) (value : Json) : String := value.render (.indented width)

end SchemaLink.Json
