import SchemaLink.CommandLine.Run
import SchemaLink.Ids.Random

/-! # The program

What a run looks into is taken from the real files into a tree, the command runs over
the tree, and what it changed there is written back. -/

namespace SchemaLink.Program

open Files (Tree Place Entry)

/-- The real path of a place. -/
def pathOf (place : Place) := System.mkFilePath ["/" ++ "/".intercalate place]

/-- Take what is at a place into a tree, if there is anything. -/
def takePlace (tree : Tree) (place : Place) : IO Tree := do
  if ← (pathOf place).isDir then
    pure (tree.insert place .directory)
  else if ← (pathOf place).pathExists then
    pure (tree.insert place (.file (.ofBytes (← IO.FS.readBinFile (pathOf place)))))
  else
    pure tree

/-- Take a file or a directory with its files into a tree, and all that is on the way there. -/
def takePath (tree : Tree) (path : String) : IO Tree := do
  let tree ← (tree.places path).foldlM takePlace tree
  match tree.entry path with
  | .ok (place, .directory) =>
    let entries ← (pathOf place).readDir
    entries.foldlM (fun tree entry => takePlace tree (place ++ [entry.fileName])) tree
  | _ => pure tree

/-- The working directory with nothing in it. -/
def startTree : IO Tree := do
  let names := (← IO.currentDir).components.filter fun name => !Files.isIdle name
  (Files.placesAlong [] names).foldlM takePlace { workingDirectory := names }

/-- Write an entry of a tree to the real files. -/
def putEntry (place : Place) : Entry → IO Unit
  | .directory => IO.FS.createDirAll (pathOf place)
  | .file (.text text) => IO.FS.writeFile (pathOf place) text
  | .file (.binary bytes) => IO.FS.writeBinFile (pathOf place) ⟨bytes.toArray⟩

/-- A generator of random numbers that no other run starts from. -/
def startGenerator : IO StdGen := do
  let bytes ← IO.getRandomBytes 16
  pure (mkStdGen (bytes.toList.foldl (fun seed byte => seed * 256 + byte.toNat) 0))

end SchemaLink.Program

open SchemaLink in
/-- Run the command over the real files. -/
def main (words : List String) : IO UInt32 := do
  let tree ← Program.startTree
  -- the first pass finds the settings, which name the rest
  let tree ← (CommandLine.sources words tree).foldlM Program.takePath tree
  let tree ← (CommandLine.sources words tree).foldlM Program.takePath tree
  let generator ← Program.startGenerator
  -- nothing is on the disk yet; what fails there fails below
  let (outcome, written, _) := CommandLine.run .sound RandomId.mint words tree generator
  for (place, entry) in written.entries.toList do
    if tree.find? place != some entry then Program.putEntry place entry
  match outcome with
  | .ok text => IO.print text
  | .error failure => IO.eprint (CommandLine.failureText failure)
  pure (.ofNat (CommandLine.exitCode outcome))
