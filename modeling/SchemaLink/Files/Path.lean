import SchemaLink.Text.Pieces

/-! # Paths of files

A path is text with slashes between the names on the way to a file. One that starts
with a slash is absolute. -/

namespace SchemaLink.Files

def isAbsolute (path : String) : Bool := path.toList.head? == some '/'

/-- The path of something below a directory. An absolute path stands for itself, and an empty
one leaves a slash after the directory. -/
def join (directory path : String) : String :=
  if isAbsolute path then path
  else if directory.isEmpty || directory.toList.getLast? == some '/' then directory ++ path
  else directory ++ "/" ++ path

/-- A piece of a path that leads nowhere. -/
def isIdle (piece : String) : Bool := piece.isEmpty || piece == "."

/-- Drop the pieces at the end that lead nowhere. -/
def trimIdle (pieces : List String) : List String := (pieces.reverse.dropWhile isIdle).reverse

/-- The lead of a path, a slash or a single dot, and the pieces after it. -/
def lead (path : String) : String × List String :=
  match Text.pieces '/' path with
  | "" :: piece :: pieces => ("/", piece :: pieces)
  | "." :: pieces => (".", if pieces.isEmpty then [] else "" :: pieces)
  | pieces => ("", pieces)

/-- The path of the directory that holds a file or directory; none for the root and for nothing. -/
def parent? (path : String) : Option String :=
  let (start, pieces) := lead path
  match trimIdle pieces with
  | [] => if start = "." then some "" else none
  | body => some (start ++ "/".intercalate (trimIdle body.dropLast))

/-- What follows the last dot of a file name, if anything precedes the dot. -/
def extension? (name : String) : Option String :=
  let after := name.toList.reverse.takeWhile (· != '.')
  if name = ".." || name.length ≤ after.length + 1 then none
  else some (String.ofList after.reverse)

/-- A file name up to its first dot. -/
def stem (name : String) : String := String.ofList (name.toList.takeWhile (· != '.'))

end SchemaLink.Files
