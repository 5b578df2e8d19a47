import SchemaLink.Compilation.Report
import SchemaLink.Document.Reader
import SchemaLink.Files.Tree
import SchemaLink.Registry.Reader
import SchemaLink.Settings.Basic

/-! # Loading a workspace

Registries and documents that cannot be read end a run. Registries that are not
there are missing, and earlier output that cannot be used is as good as none. -/

namespace SchemaLink

open Files (FileError Tree)

/-- Why a run ended. -/
inductive WorkspaceError where
  | file (path : String) (error : FileError)
  | json (path : String) (fault : Json.Fault)
  | link (error : LinkError)

namespace Workspace

/-- Read a registry, if its file is there. -/
def loadTable (tree : Tree) (path : String) (parse : String → Except Json.Fault α) :
    Except WorkspaceError (Option α) :=
  match tree.readText path with
  | .error .notFound => .ok none
  | .error error => .error (.file path error)
  | .ok text =>
    match parse text with
    | .error fault => .error (.json path fault)
    | .ok table => .ok (some table)

def loadRegistry (tree : Tree) (settings : Settings) : Except WorkspaceError Registry := do
  let entities ← loadTable tree settings.entityRegistryPath Registry.parseEntities
  let relations ← loadTable tree settings.relationRegistryPath Registry.parseRelations
  let groups ← loadTable tree settings.groupRegistryPath Registry.parseGroups
  pure { entities := entities, relations := relations, groups := groups }

/-- The name of the type that a file is about: a document is a `.json` file, and its type is
named by what precedes the first dot. -/
def typeName? (file : String) : Option String :=
  if Files.extension? file = some "json" && !(Files.stem file).isEmpty then
    some (Files.stem file)
  else none

/-- Read documents one after another, up to the first that cannot be read. -/
def readDocuments (tree : Tree) (directory : String) (kind : TypeKind) :
    List String → Except WorkspaceError (List (TypeRef × TypeDocument))
  | [] => .ok []
  | file :: files =>
    match typeName? file with
    | none => readDocuments tree directory kind files
    | some name =>
      let path := Files.join directory file
      match tree.readText path with
      | .error error => .error (.file path error)
      | .ok text =>
        match TypeDocument.parse text with
        | .error fault => .error (.json path fault)
        | .ok doc =>
          match readDocuments tree directory kind files with
          | .error error => .error error
          | .ok docs => .ok ((⟨kind, name⟩, doc) :: docs)

/-- The names of the regular files of a directory, in order; none if it is not there. -/
def fileNames (tree : Tree) (directory : String) : Except WorkspaceError (List String) :=
  match tree.list directory with
  | .error .notFound => .ok []
  | .error error => .error (.file directory error)
  | .ok entries => .ok <| entries.filterMap fun (name, entry) =>
      match entry with
      | .file _ => some name
      | .directory => none

/-- Read the documents of a kind. -/
def loadKind (tree : Tree) (settings : Settings) (kind : TypeKind) :
    Except WorkspaceError (List (TypeRef × TypeDocument)) := do
  let directory := settings.documentDirectory kind
  let files ← fileNames tree directory
  readDocuments tree directory kind files

/-- All authored documents. Of several files for one type the last in order counts. -/
def loadDocuments (tree : Tree) (settings : Settings) : Except WorkspaceError AuthoredTypes := do
  let docs ← TypeKind.all.mapM (loadKind tree settings)
  pure (.ofList docs.flatten)

/-- Record the ids in the earlier output of a type, if it can be used. -/
def recallType (tree : Tree) (settings : Settings) (history : History) (owner : TypeRef) :
    History :=
  match tree.readText (settings.outputPath owner) with
  | .error _ => history
  | .ok text =>
    match history.absorbText owner text with
    | .error _ => history
    | .ok (_, history) => history

/-- The ids in the earlier output of types. -/
def loadHistory (tree : Tree) (settings : Settings) (types : List TypeRef) : History :=
  types.foldl (recallType tree settings) .empty

end Workspace

end SchemaLink
