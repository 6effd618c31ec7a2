/-!
Files as a program sees them: a path leads to bytes or to a reason why it does not. A `Directory` is
a working directory held in memory.
-/

namespace TileWalk

/-- Why a file could not be read as text. -/
inductive ReadError
  | notFound
  | isDirectory
  /-- A file stands where the path has a directory. -/
  | notDirectory
  | nameTooLong
  | notText
  /-- Another reason, in words. -/
  | other (reason : String)
deriving DecidableEq, Inhabited

def ReadError.message : ReadError → String
  | notFound => "No such file or directory (os error 2)"
  | isDirectory => "Is a directory (os error 21)"
  | notDirectory => "Not a directory (os error 20)"
  | nameTooLong => "File name too long (os error 36)"
  | notText => "stream did not contain valid UTF-8"
  | other reason => reason

/-- The text that bytes encode. -/
def decodeText (bytes : ByteArray) : Except ReadError String :=
  match String.fromUTF8? bytes with
  | some text => .ok text
  | none => .error .notText

/-- A directory with files, each under the names that lead to it. -/
structure Directory where
  files : List (List String × ByteArray)

namespace Directory

/-- A directory with these files. A slash in a name separates the names on the way. -/
def ofFiles (files : List (String × ByteArray)) : Directory :=
  ⟨files.map fun (name, bytes) =>
    ((name.toList.splitOn '/').map String.ofList, bytes)⟩

/-- Where the part of a path read so far leads. -/
inductive Place
  /-- A directory below the working directory, or the working directory. -/
  | below (names : List String)
  /-- A directory that does not lie below the working directory. -/
  | outside
  | file (bytes : ByteArray)

def maxNameBytes : Nat := 255

def maxPathBytes : Nat := 4095

/-- Where `..` leads from a directory. -/
def parent : List String → Place
  | [] => .outside
  | names => .below names.dropLast

def child (d : Directory) (names : List String) (name : String) : Except ReadError Place :=
  let path := names ++ [name]
  match d.files.lookup path with
  | some bytes => .ok (.file bytes)
  | none =>
    if d.files.any fun entry => path.isPrefixOf entry.1 then .ok (.below path)
    else .error .notFound

/-- Where one more name leads. A name leads nowhere from a file, and one that is too long leads
nowhere from any directory. What lies outside is not known, so nothing is found there. -/
def enter (d : Directory) (place : Place) (name : String) : Except ReadError Place :=
  match place with
  | .file _ => .error .notDirectory
  | .below names =>
    if name = "" ∨ name = "." then .ok (.below names)
    else if name = ".." then .ok (parent names)
    else if maxNameBytes < name.utf8ByteSize then .error .nameTooLong
    else d.child names name
  | .outside =>
    if name = "" ∨ name = "." ∨ name = ".." then .ok .outside
    else if maxNameBytes < name.utf8ByteSize then .error .nameTooLong
    else .error .notFound

/-- The bytes of the file that a path leads to. -/
def read (d : Directory) (path : String) : Except ReadError ByteArray := do
  if path = "" then throw .notFound
  if maxPathBytes < path.utf8ByteSize then throw .nameTooLong
  let names := (path.toList.splitOn '/').map String.ofList
  let start := if names.head? = some "" then Place.outside else .below []
  match ← names.foldlM d.enter start with
  | .file bytes => pure bytes
  | .below _ | .outside => throw .isDirectory

end Directory

end TileWalk
