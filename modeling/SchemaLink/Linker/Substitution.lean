import SchemaLink.Linker.Variants

/-! # Substitution in templates

Every path of a template is replaced by its variants. Occurrences vary
independently, so one alternative may become many, and an alternative with a
path that has no variant is dropped. -/

namespace SchemaLink

/-- All lists that take one item from each list of choices, earlier choices varying slowest. -/
def combinations (choices : List (List α)) : List (List α) :=
  choices.foldl (fun chosen options =>
    chosen.flatMap fun combination => options.map fun option => combination ++ [option]) [[]]

/-- Put texts in the place of the paths among segments, in order. -/
def fillPaths : List Segment → List String → String
  | [], _ => ""
  | .literal source :: segments, texts => source ++ fillPaths segments texts
  | .path _ _ :: segments, [] => fillPaths segments []
  | .path _ _ :: segments, text :: texts => text ++ fillPaths segments texts

/-- What became of a template. -/
structure Substitution where
  text : String
  /-- The number of distinct paths in the template. -/
  tokens : Nat
  /-- The paths without a variant, as authored, each once. -/
  unresolved : List String
  deriving DecidableEq, Repr

namespace Substitution

/-- A template without paths stands as it is. -/
def unchanged (template : String) : Substitution := ⟨template, 0, []⟩

/-- The template had paths and no text is left of it. -/
def vanished (result : Substitution) : Bool := result.tokens > 0 && result.text.isEmpty

end Substitution

/-- Paths with the variants that were found for them, in order of first occurrence. -/
abbrev VariantTable := List (Path × List String)

/-- The choices for the paths among segments, one list for each occurrence. -/
def VariantTable.choices (table : VariantTable) (segments : List Segment) : List (List String) :=
  (segments.filterMap Segment.path?).filterMap fun path => List.lookup path table

/-- All texts that an alternative becomes, repetitions included. -/
def VariantTable.expansions (table : VariantTable) (segments : List Segment) : List String :=
  (combinations (table.choices segments)).map (fillPaths segments)

namespace Linker

/-- Find the variants of a path unless that was done before. -/
def remember (linker : Linker) (scope : Scope) (table : VariantTable) (path : Path) :
    VariantTable :=
  if (List.lookup path table).isSome then table else table ++ [(path, linker.variants path scope)]

/-- Resolve every path of a template for its owner, from the anchor if there is one. -/
def substitute (linker : Linker) (owner : TypeRef) (template : String)
    (anchor : Option String) : Substitution :=
  let alternatives := (Alternatives.pieces template).map Segment.ofString
  let paths := alternatives.flatMap fun segments => segments.filterMap Segment.path?
  if paths.isEmpty then .unchanged template
  else
    let table : VariantTable := paths.foldl (linker.remember (linker.scope owner anchor)) []
    { text := (Alternatives.ofList (alternatives.flatMap table.expansions)).render
      tokens := table.length
      unresolved := (table.filter fun entry => entry.2.isEmpty).map fun entry => entry.1.text }

end Linker

end SchemaLink
