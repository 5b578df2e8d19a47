import SchemaLink.Files.Path
import SchemaLink.SortedMap

/-! # File trees

The files and directories below a root. Places are lists of names from the root;
paths are followed piece by piece, and every piece but the last has to lead to a
directory. Names and paths have a greatest length. -/

namespace SchemaLink.Files

/-- Why a file or directory cannot be used. -/
inductive FileError where
  | notFound
  | isDirectory
  | notDirectory
  | alreadyExists
  /-- The path or a name in it is longer than any can be. -/
  | nameTooLong
  /-- The path has a character that no name can have. -/
  | invalidPath
  /-- The content is not text. -/
  | invalidText
  /-- There is no permission to do this. -/
  | denied
  /-- There is no room left for it. -/
  | full
  /-- The device that it is on fails. -/
  | device
  deriving DecidableEq, Repr

/-- The content of a file. -/
inductive Content where
  | text (text : String)
  /-- Bytes that are no text. -/
  | binary (bytes : List UInt8)
  deriving DecidableEq

/-- The content that bytes make up, which is text if they are UTF-8. -/
def Content.ofBytes (bytes : ByteArray) : Content :=
  match String.fromUTF8? bytes with
  | some content => .text content
  | none => .binary bytes.toList

inductive Entry where
  | file (content : Content)
  | directory
  deriving DecidableEq

/-- Names from the root on. -/
abbrev Place := List String

/-- Where a piece of a path leads from a directory. -/
def follow (place : Place) (piece : String) : Place :=
  if isIdle piece then place
  else if piece = ".." then place.dropLast
  else place ++ [piece]

/-- The places that pieces of a path lead through. -/
def placesAlong : Place → List String → List Place
  | _, [] => []
  | place, piece :: pieces => follow place piece :: placesAlong (follow place piece) pieces

/-- Names have no more bytes than this. -/
def nameLimit : Nat := 255

/-- Paths have no more bytes than this. -/
def pathLimit : Nat := 4095

/-- Why a path leads nowhere, whatever there is. -/
def refusal? (path : String) : Option FileError :=
  if path.isEmpty then some .notFound
  else if path.toList.contains '\x00' then some .invalidPath
  else if pathLimit < path.utf8ByteSize then some .nameTooLong
  else none

structure Tree where
  entries : SortedMap Place Entry := ∅
  /-- Where relative paths start. -/
  workingDirectory : Place := []

namespace Tree

def find? (tree : Tree) (place : Place) : Option Entry :=
  if place.isEmpty then some .directory else tree.entries.find? place

def insert (tree : Tree) (place : Place) (entry : Entry) : Tree :=
  { tree with entries := tree.entries.insert place entry }

/-- Where a path starts. -/
def start (tree : Tree) (path : String) : Place :=
  if isAbsolute path then [] else tree.workingDirectory

/-- Follow pieces of a path from a place. The last one may lead to nothing. -/
def walk (tree : Tree) : Place → List String → Except FileError Place
  | place, [] => .ok place
  | place, piece :: pieces =>
    match tree.find? place with
    | none => .error .notFound
    | some (.file _) => .error .notDirectory
    | some .directory =>
      if nameLimit < piece.utf8ByteSize then .error .nameTooLong
      else walk tree (follow place piece) pieces

/-- The places on the way that a path leads, whether there is anything or not. -/
def places (tree : Tree) (path : String) : List Place :=
  placesAlong (tree.start path) (Text.pieces '/' path)

/-- The place that a path leads to. -/
def locate (tree : Tree) (path : String) : Except FileError Place :=
  match refusal? path with
  | some error => .error error
  | none => tree.walk (tree.start path) (Text.pieces '/' path)

/-- What a path leads to. -/
def entry (tree : Tree) (path : String) : Except FileError (Place × Entry) :=
  match tree.locate path with
  | .error error => .error error
  | .ok place =>
    match tree.find? place with
    | none => .error .notFound
    | some entry => .ok (place, entry)

/-- The text of a file. -/
def readText (tree : Tree) (path : String) : Except FileError String :=
  match tree.entry path with
  | .error error => .error error
  | .ok (_, .directory) => .error .isDirectory
  | .ok (_, .file (.binary _)) => .error .invalidText
  | .ok (_, .file (.text text)) => .ok text

/-- The name of an entry directly below a place. -/
def nameBelow? (place : Place) (entry : Place × Entry) : Option (String × Entry) :=
  match entry.1.getLast? with
  | some name => if entry.1 = place ++ [name] then some (name, entry.2) else none
  | none => none

/-- The entries of a directory by name, in order. -/
def list (tree : Tree) (path : String) : Except FileError (List (String × Entry)) :=
  match tree.entry path with
  | .error error => .error error
  | .ok (_, .file _) => .error .notDirectory
  | .ok (place, .directory) => .ok (tree.entries.toList.filterMap (nameBelow? place))

end Tree

end SchemaLink.Files
