import SchemaLink.Files.Tree

/-! # Disks

What nothing in a tree forbids may still fail on the disk: for want of permission or of room, or
because the device fails. The disk is asked before a directory is created and when a text is
written. A file is emptied before its text is written, and a text that is cut short leaves its
first bytes there. -/

namespace SchemaLink.Files

/-- What becomes of a text that is to be written to a file. -/
inductive Writing (text : String) where
  | complete
  /-- The file cannot be opened. -/
  | refused (error : FileError)
  /-- The file is emptied, and so many bytes are written but not all. -/
  | cut (error : FileError) (count : Fin text.utf8ByteSize)

/-- What a disk does at a place of a tree. -/
structure Disk where
  /-- Whether a directory can be created. -/
  creating : Tree → Place → Except FileError Unit
  writing : Tree → Place → (text : String) → Writing text

/-- The disk on which nothing fails. -/
def Disk.sound : Disk where
  creating _ _ := .ok ()
  writing _ _ _ := .complete

/-- The content that a text leaves when it is cut short. -/
def Content.firstBytes (text : String) (count : Nat) : Content :=
  .ofBytes (text.toUTF8.extract 0 count)

namespace Tree

/-- Create the directories that are missing on the way along pieces of a path; what has been
created stays, whatever comes after it. A file stands where a directory is to be created if it is
at the end or if anything was `created` before it; elsewhere it is on the way and no directory. -/
def createAlong (disk : Disk) (tree : Tree) (created : Bool) :
    Place → List String → Except FileError Unit × Tree
  | _, [] => (.ok (), tree)
  | place, piece :: pieces =>
    let next := follow place piece
    if nameLimit < piece.utf8ByteSize then (.error .nameTooLong, tree)
    else
      match tree.find? next with
      | some .directory => createAlong disk tree created next pieces
      | some (.file _) =>
        (.error (if created || pieces.isEmpty then .alreadyExists else .notDirectory), tree)
      | none =>
        match disk.creating tree next with
        | .error error => (.error error, tree)
        | .ok () => createAlong disk (tree.insert next .directory) true next pieces

/-- Create a directory and those above it, as far as they are missing. -/
def createDirectories (disk : Disk) (tree : Tree) (path : String) :
    Except FileError Unit × Tree :=
  if path.isEmpty then (.ok (), tree)
  else
    match refusal? path with
    | some error => (.error error, tree)
    | none => tree.createAlong disk false (tree.start path) (Text.pieces '/' path)

/-- Write the text of a file in a directory that exists. -/
def writeText (disk : Disk) (tree : Tree) (path text : String) : Except FileError Unit × Tree :=
  match tree.locate path with
  | .error error => (.error error, tree)
  | .ok place =>
    match tree.find? place with
    | some .directory => (.error .isDirectory, tree)
    | _ =>
      match disk.writing tree place text with
      | .complete => (.ok (), tree.insert place (.file (.text text)))
      | .refused error => (.error error, tree)
      | .cut error count => (.error error, tree.insert place (.file (.firstBytes text count)))

end Tree

end SchemaLink.Files
