import SchemaLink.Path.Basic

/-! # Lexemes of template text

Every character of a text belongs to exactly one lexeme, so the sources of the
lexemes join to the text again. Each lexeme is as long as its kind allows. -/

namespace SchemaLink

/-- A half-open range of byte offsets. -/
structure Span where
  start : Nat
  stop : Nat
  deriving DecidableEq, Repr

/-- Lay out items one after another from a byte offset, each as long as its source. -/
def Span.layout (source : α → String) : Nat → List α → List (α × Span)
  | _, [] => []
  | start, item :: items =>
    let stop := start + (source item).utf8ByteSize
    (item, ⟨start, stop⟩) :: layout source stop items

inductive Lexeme where
  | arrow
  | dot
  /-- A dollar sign and a name; the sign is not part of the name. -/
  | name (word : String)
  /-- A dollar sign that no name follows. -/
  | dollar
  /-- A hyphen that is not part of an arrow. -/
  | minus
  /-- A run of characters that none of the others can start with. -/
  | text (run : String)
  deriving DecidableEq, Repr

namespace Lexeme

/-- Names are made of lowercase ASCII letters and underscores. -/
def isNameChar (c : Char) : Bool := 'a' ≤ c && c ≤ 'z' || c == '_'

def isTextChar (c : Char) : Bool := c != '$' && c != '.' && c != '-'

def source : Lexeme → String
  | arrow => "->"
  | dot => "."
  | name word => "$" ++ word
  | dollar => "$"
  | minus => "-"
  | text run => run

def scan : List Char → List Lexeme
  | [] => []
  | '-' :: '>' :: rest => arrow :: scan rest
  | '-' :: rest => minus :: scan rest
  | '.' :: rest => dot :: scan rest
  | '$' :: rest =>
    if (rest.takeWhile isNameChar).isEmpty then dollar :: scan rest
    else
      name (String.ofList (rest.takeWhile isNameChar)) :: scan (rest.dropWhile isNameChar)
  | c :: rest =>
    text (String.ofList (c :: rest.takeWhile isTextChar)) :: scan (rest.dropWhile isTextChar)
termination_by cs => cs.length
decreasing_by
  all_goals
    have hname := (List.dropWhile_sublist (l := rest) isNameChar).length_le
    have htext := (List.dropWhile_sublist (l := rest) isTextChar).length_le
    simp only [List.length_cons]
    omega

def ofString (text : String) : List Lexeme := scan text.toList

end Lexeme

end SchemaLink
