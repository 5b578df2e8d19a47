import SchemaLink.Path.Lexeme

/-! # Segments of template text

A template is literal text with path expressions in it. The text is read from
the left: where a path can start, the longest one is taken, and every lexeme
that does not belong to a path is literal. -/

namespace SchemaLink

/-- A path read at the head of a list of lexemes, with the lexemes it spans and those after it. -/
structure PathMatch where
  path : Path
  spanned : List Lexeme
  rest : List Lexeme

namespace PathMatch

/-- Read a path: a hop and an arrow before a path, a hop with a bound property, an own
property, or a plain name, in this order of preference. A chain of hops that cannot be
completed ends with the last of them. -/
def read? : List Lexeme → Option PathMatch
  | .name word :: .arrow :: rest =>
    match Hop.ofName? word, read? rest with
    | some hop, some found =>
      some ⟨.after hop found.path, .name word :: .arrow :: found.spanned, found.rest⟩
    | _, _ => some ⟨⟨[], .ofName word⟩, [.name word], .arrow :: rest⟩
  | .name word :: .dot :: .name property :: rest =>
    match Hop.ofName? word with
    | some hop =>
      some ⟨⟨[], .hopProperty hop property⟩, [.name word, .dot, .name property], rest⟩
    | none => some ⟨⟨[], .ofName word⟩, [.name word], .dot :: .name property :: rest⟩
  | .name word :: rest => some ⟨⟨[], .ofName word⟩, [.name word], rest⟩
  | .dot :: .name property :: rest =>
    some ⟨⟨[], .ownProperty property⟩, [.dot, .name property], rest⟩
  | _ => none

/-- A path takes lexemes off the head and nothing else. -/
theorem spanned_append_rest {lexemes : List Lexeme} {found : PathMatch}
    (h : read? lexemes = some found) : found.spanned ++ found.rest = lexemes := by
  fun_induction read? lexemes generalizing found <;> grind

theorem spanned_ne_nil {lexemes : List Lexeme} {found : PathMatch}
    (h : read? lexemes = some found) : found.spanned ≠ [] := by
  fun_induction read? lexemes generalizing found <;> grind

theorem rest_length {lexemes : List Lexeme} {found : PathMatch}
    (h : read? lexemes = some found) : found.rest.length < lexemes.length := by
  rw [← spanned_append_rest h, List.length_append]
  have := List.length_pos_iff.2 (spanned_ne_nil h)
  omega

end PathMatch

/-- A piece of template text, with the text it was read from. -/
inductive Segment where
  | literal (source : String)
  | path (path : Path) (source : String)
  deriving DecidableEq, Repr

namespace Segment

def source : Segment → String
  | literal source => source
  | path _ source => source

def path? : Segment → Option Path
  | literal _ => none
  | path found _ => some found

/-- Put literal text before segments; text before a literal becomes part of it. -/
def consLiteral (text : String) : List Segment → List Segment
  | literal source :: segments => literal (text ++ source) :: segments
  | segments => literal text :: segments

def ofLexemes (lexemes : List Lexeme) : List Segment :=
  match lexemes with
  | [] => []
  | lexeme :: others =>
    match _h : PathMatch.read? (lexeme :: others) with
    | some found =>
      path found.path (String.join (found.spanned.map Lexeme.source)) :: ofLexemes found.rest
    | none => consLiteral lexeme.source (ofLexemes others)
termination_by lexemes.length
decreasing_by
  · exact PathMatch.rest_length ‹_›
  · simp

/-- The segments of a text, in order. -/
def ofString (text : String) : List Segment := ofLexemes (Lexeme.ofString text)

/-- The segments of a text with their byte ranges. -/
def located (text : String) : List (Segment × Span) := Span.layout source 0 (ofString text)

end Segment

namespace Path

/-- The path expressions of a text with their byte ranges. -/
def located (text : String) : List (Path × Span) :=
  (Segment.located text).filterMap fun (segment, span) =>
    segment.path?.map fun path => (path, span)

/-- The path that a whole text spells. -/
def parse? (text : String) : Option Path :=
  match Segment.ofString text with
  | [.path found _] => some found
  | _ => none

end Path

end SchemaLink
