/-! # Cutting text at a character -/

namespace SchemaLink.Text

/-- The pieces of a text between the occurrences of a character; they never hold it. -/
def cutAt (mark : Char) : List Char → List (List Char)
  | [] => [[]]
  | c :: rest =>
    if c = mark then [] :: cutAt mark rest
    else
      match cutAt mark rest with
      | [] => [[c]]
      | piece :: pieces => (c :: piece) :: pieces

/-- The pieces of a string between the occurrences of a character. -/
def pieces (mark : Char) (text : String) : List String :=
  (cutAt mark text.toList).map String.ofList

end SchemaLink.Text
