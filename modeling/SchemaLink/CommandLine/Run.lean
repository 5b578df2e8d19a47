import SchemaLink.CommandLine.Options
import SchemaLink.Workspace.Run

/-! # The command line

A run ends with an exit code and with what it prints: the advisories and a summary
if it succeeds, and the reason if it fails. -/

namespace SchemaLink.CommandLine

open Files (Disk FileError Tree)

/-- Why a run of the command failed. -/
inductive Failure where
  /-- The words of the command line are not allowed. -/
  | usage
  | settings (path : String) (error : Workspace.SettingsError)
  | workspace (error : WorkspaceError)

/-- What a run of the command comes to: the text it prints, or why it failed. -/
abbrev Outcome := Except Failure String

def exitCode : Outcome → Nat
  | .ok _ => 0
  | .error .usage => 2
  | .error _ => 1

def usageText : String :=
  "Usage: schemalink [OPTIONS]\n\n" ++
  "Options:\n" ++
  "  -c, --config <FILE>   Settings (TOML)\n" ++
  "  -i, --input <DIR>     Directory of authored documents and registries\n" ++
  "  -o, --output <DIR>    Directory of compiled documents\n" ++
  "      --indent <N>      Indentation width of compiled documents\n" ++
  "      --check           Compile without writing output\n" ++
  "  -h, --help            Print help\n"

def fileErrorText : FileError → String
  | .notFound => "not found"
  | .isDirectory => "is a directory"
  | .notDirectory => "not a directory"
  | .alreadyExists => "already exists"
  | .nameTooLong => "name too long"
  | .invalidPath => "not a path"
  | .invalidText => "content is not text"
  | .denied => "permission denied"
  | .full => "no space left"
  | .device => "device failure"

def faultText : Json.Fault → String
  | .malformed => "not JSON"
  | .unfinished => "unexpected end"
  | .misshapen => "unexpected shape"

def workspaceErrorText : WorkspaceError → String
  | .file path error => "i/o error on " ++ path ++ ": " ++ fileErrorText error
  | .json path fault => "invalid JSON in " ++ path ++ ": " ++ faultText fault
  | .link error => error.message

def settingsErrorText : Workspace.SettingsError → String
  | .unreadable error => "Failed to read config file: " ++ fileErrorText error
  | .refused => "Failed to parse config TOML"

/-- What is printed about a failure. -/
def failureText : Failure → String
  | .usage => usageText
  | .settings path error =>
    "Error loading config '" ++ path ++ "': " ++ settingsErrorText error ++ "\n"
  | .workspace error => "Error: " ++ workspaceErrorText error ++ "\n"

/-- The advisories, each on a line of its own, and a summary. -/
def reportText (report : Report) : String :=
  String.join (report.advisories.map fun advisory => advisory.text ++ "\n") ++
  "Compiled " ++ toString report.documents.size ++ " types (" ++
  toString report.advisories.length ++ " advisories)\n"

/-- The settings of a run: those of the file, if one is named, under those of the options. -/
def settingsOf (tree : Tree) (options : Options) : Except Failure Settings := do
  let settings ←
    match options.config with
    | none => pure {}
    | some path => (Workspace.loadSettings tree path).mapError (Failure.settings path)
  pure { settings with
    inputDirectory := options.input.getD settings.inputDirectory
    outputDirectory := options.output.getD settings.outputDirectory
    indent := options.indent.getD settings.indent }

/-- The files and directories that a run looks into, as far as a tree tells: those that settings
name are known once their file is in the tree. -/
def sources (words : List String) (tree : Tree) : List String :=
  match parse words with
  | some (.compile options) =>
    options.config.toList ++
      match settingsOf tree options with
      | .ok settings => settings.sources
      | .error _ => []
  | _ => []

/-- Run the command with its words over a file tree. -/
def run (disk : Disk) (mint : μ → String × μ) (words : List String) (tree : Tree) (minter : μ) :
    Outcome × Tree × μ :=
  match parse words with
  | none => (.error .usage, tree, minter)
  | some .help => (.ok usageText, tree, minter)
  | some (.compile options) =>
    match settingsOf tree options with
    | .error failure => (.error failure, tree, minter)
    | .ok settings =>
      let (result, tree, minter) :=
        if options.check then
          let (result, minter) := Workspace.check mint tree settings minter
          (result, tree, minter)
        else Workspace.run disk mint tree settings minter
      ((result.mapError Failure.workspace).map reportText, tree, minter)

end SchemaLink.CommandLine
