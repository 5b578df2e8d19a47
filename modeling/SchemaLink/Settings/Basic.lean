import SchemaLink.Files.Path
import SchemaLink.TypeRef

/-! # Settings

Where documents and registries are read from, where compiled documents go, and how
far they are indented. -/

namespace SchemaLink

structure Settings where
  inputDirectory : String := "human_readable_config"
  outputDirectory : String := "config"
  entityRegistry : String := "entities.json"
  relationRegistry : String := "relations.json"
  groupRegistry : String := "groups.json"
  indent : Nat := 4
  deriving DecidableEq, Repr

namespace Settings

def entityRegistryPath (settings : Settings) : String :=
  Files.join settings.inputDirectory settings.entityRegistry

def relationRegistryPath (settings : Settings) : String :=
  Files.join settings.inputDirectory settings.relationRegistry

def groupRegistryPath (settings : Settings) : String :=
  Files.join settings.inputDirectory settings.groupRegistry

/-- The directory of the authored documents of a kind. -/
def documentDirectory (settings : Settings) (kind : TypeKind) : String :=
  Files.join settings.inputDirectory kind.label

/-- The directory of the compiled documents of a kind. -/
def compiledDirectory (settings : Settings) (kind : TypeKind) : String :=
  Files.join settings.outputDirectory kind.label

/-- The file of the compiled document of a type. -/
def outputPath (settings : Settings) (owner : TypeRef) : String :=
  Files.join (settings.compiledDirectory owner.kind) (owner.name ++ ".json")

/-- The files and directories that a run looks into. -/
def sources (settings : Settings) : List String :=
  [settings.entityRegistryPath, settings.relationRegistryPath, settings.groupRegistryPath] ++
  TypeKind.all.map settings.documentDirectory ++ TypeKind.all.map settings.compiledDirectory

/-- Directories count from the directory of the file that the settings stand in. -/
def relativeTo (settings : Settings) (file : String) : Settings :=
  match Files.parent? file with
  | none => settings
  | some directory =>
    { settings with
      inputDirectory := Files.join directory settings.inputDirectory
      outputDirectory := Files.join directory settings.outputDirectory }

end Settings

end SchemaLink
