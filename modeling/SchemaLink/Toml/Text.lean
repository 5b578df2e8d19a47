/-! # Strings of TOML text

Strings stand in quotes or in apostrophes, on one line or between threefold
marks on several. Only quoted ones have escapes. -/

namespace SchemaLink.Toml

def isBlank (c : Char) : Bool := c == ' ' || c == '\t'

/-- A character that may stand in a string or a comment: any but control characters. -/
def isPlain (c : Char) : Bool := c == '\t' || (0x20 ≤ c.toNat && c.toNat != 0x7f)

def skipBlanks (text : List Char) : List Char := text.dropWhile isBlank

/-- The text after a line break, if the text starts with one. -/
def afterBreak? : List Char → Option (List Char)
  | '\n' :: rest => some rest
  | '\r' :: '\n' :: rest => some rest
  | _ => none

def digit? (c : Char) : Option Nat :=
  if '0' ≤ c && c ≤ '9' then some (c.toNat - '0'.toNat)
  else if 'a' ≤ c && c ≤ 'f' then some (c.toNat - 'a'.toNat + 10)
  else if 'A' ≤ c && c ≤ 'F' then some (c.toNat - 'A'.toNat + 10)
  else none

/-- The character with a code point in hexadecimal digits. -/
def codePoint? (digits : List Char) : Option Char := do
  let values ← digits.mapM digit?
  let point := values.foldl (fun point value => point * 16 + value) 0
  if point.isValidChar then some (Char.ofNat point) else none

def simpleEscape? : Char → Option Char
  | 'b' => some '\x08'
  | 't' => some '\t'
  | 'n' => some '\n'
  | 'f' => some '\x0c'
  | 'r' => some '\r'
  | '"' => some '"'
  | '\\' => some '\\'
  | _ => none

/-- Put the character before the content of a string that is read after it. -/
def prepend (c : Char) (found : Option (List Char × List Char)) :
    Option (List Char × List Char) :=
  found.map fun (content, rest) => (c :: content, rest)

/-- A quoted string on one line, from after its opening quote. -/
def readQuoted : List Char → Option (List Char × List Char)
  | [] => none
  | '"' :: rest => some ([], rest)
  | '\\' :: 'u' :: a :: b :: c :: d :: rest => do
    prepend (← codePoint? [a, b, c, d]) (readQuoted rest)
  | '\\' :: 'U' :: a :: b :: c :: d :: e :: f :: g :: h :: rest => do
    prepend (← codePoint? [a, b, c, d, e, f, g, h]) (readQuoted rest)
  | '\\' :: c :: rest => do prepend (← simpleEscape? c) (readQuoted rest)
  | c :: rest => if isPlain c && c != '\\' then prepend c (readQuoted rest) else none

/-- A string in apostrophes on one line, from after the opening one. -/
def readLiteral : List Char → Option (List Char × List Char)
  | [] => none
  | '\'' :: rest => some ([], rest)
  | c :: rest => if isPlain c then prepend c (readLiteral rest) else none

/-- A backslash at the end of a line leaves out the break and all blanks after it. -/
def breaksLine (afterBackslash : List Char) : Bool :=
  (afterBreak? (skipBlanks afterBackslash)).isSome

/-- A quoted string on several lines. After a backslash at the end of a line, blanks and breaks
are left out while `gap` holds. Up to two quotes may stand before the closing three. -/
def readQuotedLines (gap : Bool) : List Char → Option (List Char × List Char)
  | [] => none
  | '"' :: '"' :: '"' :: '"' :: '"' :: rest => some (['"', '"'], rest)
  | '"' :: '"' :: '"' :: '"' :: rest => some (['"'], rest)
  | '"' :: '"' :: '"' :: rest => some ([], rest)
  | '\\' :: 'u' :: a :: b :: c :: d :: rest => do
    prepend (← codePoint? [a, b, c, d]) (readQuotedLines false rest)
  | '\\' :: 'U' :: a :: b :: c :: d :: e :: f :: g :: h :: rest => do
    prepend (← codePoint? [a, b, c, d, e, f, g, h]) (readQuotedLines false rest)
  | '\\' :: c :: rest =>
    if breaksLine (c :: rest) then readQuotedLines true (c :: rest)
    else do prepend (← simpleEscape? c) (readQuotedLines false rest)
  | '\r' :: '\n' :: rest =>
    if gap then readQuotedLines true rest else prepend '\n' (readQuotedLines false rest)
  | c :: rest =>
    if gap && (isBlank c || c == '\n') then readQuotedLines true rest
    else if (isPlain c && c != '\\') || c == '\n' then prepend c (readQuotedLines false rest)
    else none

/-- A string in apostrophes on several lines. -/
def readLiteralLines : List Char → Option (List Char × List Char)
  | [] => none
  | '\'' :: '\'' :: '\'' :: '\'' :: '\'' :: rest => some (['\'', '\''], rest)
  | '\'' :: '\'' :: '\'' :: '\'' :: rest => some (['\''], rest)
  | '\'' :: '\'' :: '\'' :: rest => some ([], rest)
  | '\r' :: '\n' :: rest => prepend '\n' (readLiteralLines rest)
  | c :: rest => if isPlain c || c == '\n' then prepend c (readLiteralLines rest) else none

/-- A line break right after the opening marks does not belong to the string. -/
def dropFirstBreak (text : List Char) : List Char := (afterBreak? text).getD text

end SchemaLink.Toml
