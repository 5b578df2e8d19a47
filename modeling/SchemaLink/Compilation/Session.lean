import SchemaLink.Compilation.Report
import SchemaLink.Document.Reader
import SchemaLink.Document.Writer
import SchemaLink.Ids.Allocation
import SchemaLink.Registry.Reader

/-! # Sessions

Sources are edited and compiled, over and over again. Output that is saved is where later
compilations find the ids of fields. A compilation that fails saves nothing, but the ids
that it minted are used up. -/

namespace SchemaLink

open Json (Fault)

/-- The texts that a compilation starts from. -/
structure Sources where
  entities : Option String := none
  relations : Option String := none
  groups : Option String := none
  documents : SortedMap TypeRef String := ∅

namespace Sources

/-- Put another text, or none, in the place of a registry. -/
def setRegistry (sources : Sources) (kind : RegistryKind) (text : Option String) : Sources :=
  match kind with
  | .entities => { sources with entities := text }
  | .relations => { sources with relations := text }
  | .groups => { sources with groups := text }

def readRegistry (sources : Sources) : Except Fault Registry := do
  let entities ← sources.entities.mapM Registry.parseEntities
  let relations ← sources.relations.mapM Registry.parseRelations
  let groups ← sources.groups.mapM Registry.parseGroups
  pure { entities := entities, relations := relations, groups := groups }

/-- Read all sources, the registries before the documents. -/
def read (sources : Sources) : Except Fault (Registry × AuthoredTypes) := do
  let registry ← sources.readRegistry
  let documents ← sources.documents.traverse fun _ text => TypeDocument.parse text
  pure (registry, documents)

end Sources

/-- What is carried from one compilation to the next. -/
structure Session (μ : Type) where
  sources : Sources := {}
  /-- The output of every type that was saved last. -/
  outputs : SortedMap TypeRef String := ∅
  minter : μ

/-- Why a compilation in a session failed. -/
inductive SessionError where
  | json (fault : Fault)
  | link (error : LinkError)

/-- A compilation that succeeded. -/
structure Compiled where
  registry : Registry
  documents : AuthoredTypes
  report : Report

/-- What can be done in a session. -/
inductive Command where
  | register (kind : RegistryKind) (text : Option String)
  /-- Add a document or replace the one there is. -/
  | author (type : TypeRef) (text : String)
  | drop (type : TypeRef)
  | compile
  /-- Compile, and keep the output with each level indented by a number of blanks. -/
  | save (indent : Nat)

namespace Session

variable {μ : Type} (mint : μ → String × μ)

/-- Record the ids in the last output of a type, if there is one that can be read. -/
def recallType (session : Session μ) (history : History) (type : TypeRef) : History :=
  match session.outputs.find? type with
  | none => history
  | some text =>
    match history.absorbText type text with
    | .error _ => history
    | .ok (_, history) => history

/-- The ids in the last output of types. -/
def history (session : Session μ) (types : List TypeRef) : History :=
  types.foldl session.recallType .empty

/-- Compile the sources as they are. -/
def compile (session : Session μ) : Except SessionError Compiled × μ :=
  match session.sources.read with
  | .error fault => (.error (.json fault), session.minter)
  | .ok (registry, documents) =>
    let start := StableIds.start (session.history documents.keys) session.minter
    match SchemaLink.compile (StableIds.allocate mint) registry documents start with
    | (.error error, ids) => (.error (.link error), ids.minter)
    | (.ok report, ids) => (.ok ⟨registry, documents, report⟩, ids.minter)

/-- Keep the output of a report. Output of other types stays. -/
def keep (session : Session μ) (report : Report) (indent : Nat) : Session μ :=
  let texts := report.documents.toList.map fun (type, doc) => (type, doc.text indent)
  { session with
    outputs := texts.foldl (fun outputs text => outputs.insert text.1 text.2) session.outputs }

/-- What a command changes, and the compilation that was saved, if one was. -/
def perform (session : Session μ) : Command → Option Compiled × Session μ
  | .register kind text =>
    (none, { session with sources := session.sources.setRegistry kind text })
  | .author type text =>
    (none, { session with sources :=
      { session.sources with documents := session.sources.documents.insert type text } })
  | .drop type =>
    (none, { session with sources :=
      { session.sources with documents := session.sources.documents.erase type } })
  | .compile => (none, { session with minter := (session.compile mint).2 })
  | .save indent =>
    match session.compile mint with
    | (.error _, minter) => (none, { session with minter := minter })
    | (.ok compiled, minter) =>
      (some compiled, { session with minter := minter }.keep compiled.report indent)

/-- Perform commands one after another, and list the compilations that were saved. -/
def run : List Command → Session μ → List Compiled × Session μ
  | [], session => ([], session)
  | command :: commands, session =>
    let (saved, session) := session.perform mint command
    let (later, session) := run commands session
    (saved.toList ++ later, session)

end Session

end SchemaLink
