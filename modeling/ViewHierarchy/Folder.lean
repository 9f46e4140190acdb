import ViewHierarchy.Text.Quoted
import ViewHierarchy.Text.Utf8

/-! Files by their paths from a working folder. -/
namespace ViewHierarchy

inductive FileError where
  | missing (path : String)
  | isFolder (path : String)
  | notFolder (path : String)
deriving DecidableEq

def FileError.message : FileError → String
  | missing path => "[Errno 2] No such file or directory: " ++ Text.quotedString path
  | isFolder path => "[Errno 21] Is a directory: " ++ Text.quotedString path
  | notFolder path => "[Errno 20] Not a directory: " ++ Text.quotedString path

/-- Files by the names on the way to them. -/
structure Folder where
  files : List (List String × List UInt8)

namespace Folder

/-- The pieces of a path between slashes. -/
def pathPieces (piece : List Char) : List Char → List String
  | [] => [String.ofList piece.reverse]
  | '/' :: rest => String.ofList piece.reverse :: pathPieces [] rest
  | c :: rest => pathPieces (c :: piece) rest

def ofList (files : List (String × List UInt8)) : Folder :=
  ⟨files.map fun (path, bytes) => (pathPieces [] path.toList, bytes)⟩

/-- Where a path leads: a file, a folder, or a name that its folder does not hold. -/
inductive Place where
  | file (way : List String)
  | folder
  | vacant (way : List String)

def isFile (f : Folder) (way : List String) : Bool := f.files.any (·.1 == way)

def isFolder (f : Folder) (way : List String) : Bool :=
  f.files.any fun (w, _) => way.isPrefixOf w && way != w

/-- Follows the pieces of a path from a folder of the given way. A path that ends in a slash leads
to a folder only, and none is created. -/
def follow (f : Folder) (creating : Bool) (path : String) (way : List String) :
    List String → Except FileError Place
  | [] => .ok .folder
  | piece :: rest =>
    if piece == "" || piece == "." then follow f creating path way rest
    else if piece == ".." then
      if way.isEmpty then if rest.all (· == "") then .ok .folder else .error (.missing path)
      else follow f creating path way.dropLast rest
    else
      let way := way ++ [piece]
      if f.isFolder way then follow f creating path way rest
      else if rest.isEmpty then .ok (if f.isFile way then .file way else .vacant way)
      else if creating && rest.all (· == "") then .error (.isFolder path)
      else if f.isFile way then .error (.notFolder path)
      else .error (.missing path)

def place (f : Folder) (creating : Bool) (path : String) : Except FileError Place :=
  match path.toList with
  | [] => .error (.missing path)
  | '/' :: rest => if rest.all (· == '/') then .ok .folder else .error (.missing path)
  | s => f.follow creating path [] (pathPieces [] s)

def read (f : Folder) (path : String) : Except FileError (List UInt8) := do
  match ← f.place false path with
  | .file way =>
    match f.files.lookup way with
    | some bytes => .ok bytes
    | none => .error (.missing path)
  | .folder => .error (.isFolder path)
  | .vacant _ => .error (.missing path)

/-- Writes a file, which is created if its folder is there. -/
def write (f : Folder) (path : String) (bytes : List UInt8) : Except FileError Folder := do
  match ← f.place true path with
  | .file way =>
    .ok ⟨f.files.map fun (w, b) => if w == way then (w, bytes) else (w, b)⟩
  | .vacant way => .ok ⟨f.files ++ [(way, bytes)]⟩
  | .folder => .error (.isFolder path)

end Folder

/-- The source text in the bytes of a file. -/
def sourceText (bytes : List UInt8) : List Char :=
  Text.normalizeNewlines (Text.Utf8.decodeLossy bytes)

end ViewHierarchy
