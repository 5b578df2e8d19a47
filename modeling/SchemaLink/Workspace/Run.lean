import SchemaLink.Document.Writer
import SchemaLink.Files.Disk
import SchemaLink.Settings.Reader
import SchemaLink.Workspace.Loading

/-! # Runs over a workspace

Output is written only after every type has been compiled, one type after another.
A run that fails while writing leaves what it has written and created by then, and of the
document that it fails at what the disk has taken. -/

namespace SchemaLink.Workspace

open Files (Disk FileError Tree)

variable {μ : Type}

/-- Compile what is in a workspace, and keep the documents that it was compiled from. -/
def compileAll (mint : μ → String × μ) (tree : Tree) (settings : Settings) (minter : μ) :
    Except WorkspaceError (AuthoredTypes × Report) × μ :=
  let loaded : Except WorkspaceError (Registry × AuthoredTypes) := do
    let registry ← loadRegistry tree settings
    let documents ← loadDocuments tree settings
    pure (registry, documents)
  match loaded with
  | .error error => (.error error, minter)
  | .ok (registry, documents) =>
    let history := loadHistory tree settings documents.keys
    match compile (StableIds.allocate mint) registry documents (.start history minter) with
    | (.error error, ids) => (.error (.link error), ids.minter)
    | (.ok report, ids) => (.ok (documents, report), ids.minter)

/-- Compile without writing anything. -/
def check (mint : μ → String × μ) (tree : Tree) (settings : Settings) (minter : μ) :
    Except WorkspaceError Report × μ :=
  let (result, minter) := compileAll mint tree settings minter
  (result.map Prod.snd, minter)

/-- Create the directory of a file, if need be. -/
def prepareDirectory (disk : Disk) (tree : Tree) (path : String) :
    Except WorkspaceError Unit × Tree :=
  match Files.parent? path with
  | none => (.ok (), tree)
  | some directory =>
    let (created, tree) := tree.createDirectories disk directory
    (created.mapError (.file directory), tree)

/-- Write one document, in a directory that is created if need be. -/
def writeDocument (disk : Disk) (tree : Tree) (path text : String) :
    Except WorkspaceError Unit × Tree :=
  match prepareDirectory disk tree path with
  | (.error error, tree) => (.error error, tree)
  | (.ok (), tree) =>
    let (written, tree) := tree.writeText disk path text
    (written.mapError (.file path), tree)

/-- Write documents one after another, up to the first that cannot be written. -/
def writeDocuments (disk : Disk) (tree : Tree) :
    List (String × String) → Except WorkspaceError Unit × Tree
  | [] => (.ok (), tree)
  | (path, text) :: outputs =>
    match writeDocument disk tree path text with
    | (.error error, tree) => (.error error, tree)
    | (.ok (), tree) => writeDocuments disk tree outputs

/-- The files of compiled documents, with what belongs into them. -/
def outputs (settings : Settings) (report : Report) : List (String × String) :=
  report.documents.toList.map fun (owner, doc) =>
    (settings.outputPath owner, doc.text settings.indent)

def writeOutputs (disk : Disk) (tree : Tree) (settings : Settings) (report : Report) :
    Except WorkspaceError Unit × Tree :=
  writeDocuments disk tree (outputs settings report)

/-- Compile and write the output. -/
def run (disk : Disk) (mint : μ → String × μ) (tree : Tree) (settings : Settings) (minter : μ) :
    Except WorkspaceError Report × Tree × μ :=
  match check mint tree settings minter with
  | (.error error, minter) => (.error error, tree, minter)
  | (.ok report, minter) =>
    match writeOutputs disk tree settings report with
    | (.error error, tree) => (.error error, tree, minter)
    | (.ok (), tree) => (.ok report, tree, minter)

/-- Why settings cannot be used. -/
inductive SettingsError where
  | unreadable (error : FileError)
  | refused
  deriving DecidableEq, Repr

/-- The settings in a file. -/
def loadSettings (tree : Tree) (path : String) : Except SettingsError Settings :=
  match tree.readText path with
  | .error error => .error (.unreadable error)
  | .ok text =>
    match Settings.parse text with
    | none => .error .refused
    | some settings => .ok (settings.relativeTo path)

end SchemaLink.Workspace
