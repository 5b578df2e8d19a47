import SchemaLink.Distinct

/-! # Alternatives of a template

A template may list several alternatives with a separator between them. The
separator is looked for from the left, and two separators never overlap. -/

namespace SchemaLink

/-- An ordered list of alternatives; `push`, and so everything read from text, keeps them
distinct. -/
structure Alternatives where
  items : List String
  deriving DecidableEq, Repr

namespace Alternatives

/-- What stands between two alternatives, in authored and in compiled text. -/
def separator : String := " $||$ "

/-- Cut characters at every separator. -/
def cut : List Char → List (List Char)
  | [] => [[]]
  | ' ' :: '$' :: '|' :: '|' :: '$' :: ' ' :: rest => [] :: cut rest
  | c :: rest =>
    match cut rest with
    | [] => [[c]]
    | piece :: pieces => (c :: piece) :: pieces

/-- The pieces of a text between its separators, repetitions included. -/
def pieces (text : String) : List String := (cut text.toList).map String.ofList

/-- Put the separator between texts. -/
def join (texts : List String) : String := separator.intercalate texts

def empty : Alternatives := ⟨[]⟩

/-- Add an alternative unless it is there already. -/
def push (alternatives : Alternatives) (text : String) : Alternatives :=
  ⟨insertNew alternatives.items text⟩

def ofList (texts : List String) : Alternatives := texts.foldl push empty

def parse (text : String) : Alternatives := ofList (pieces text)

def render (alternatives : Alternatives) : String := join alternatives.items

end Alternatives

end SchemaLink
