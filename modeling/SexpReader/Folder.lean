import SexpReader.Path
import SexpReader.Utf8.Encode

/-!
# Files in memory

A `Folder` holds files and empty folders, each with the names on the way to it; what lies on the
way is a folder too. `Folder.read` goes along the names of a path, and a `FileError` tells why it
did not come to a file.

A `FileSystem` is what a program can see: the folder it works in, the root, and the homes of the
users. What lies above the folder it works in is known to be a folder, and nothing else is known
about it.
-/

namespace SexpReader

/-- Why a file could not be read. -/
inductive FileError where
  | notFound (path : Text)
  | isFolder (path : Text)
  | notFolder (path : Text)
  | nameTooLong (path : Text)
  /-- The path holds the character that ends every path. -/
  | embeddedNul
deriving DecidableEq

/-- The error in a sentence, with the number that systems give it. -/
def FileError.message : FileError → Text
  | .notFound path => "[Errno 2] No such file or directory: " ++ path.quoted
  | .isFolder path => "[Errno 21] Is a directory: " ++ path.quoted
  | .notFolder path => "[Errno 20] Not a directory: " ++ path.quoted
  | .nameTooLong path => "[Errno 36] File name too long: " ++ path.quoted
  | .embeddedNul => "embedded null byte"

/-- Files and empty folders in memory, each with the names on the way to it. -/
structure Folder where
  files : List (List Text × Bytes)
  folders : List (List Text)
deriving DecidableEq

namespace Folder

/-- A place that a path can lead to. -/
inductive Place where
  | file (content : Bytes)
  | folder (names : List Text)
  | above
  | nowhere
deriving DecidableEq

/-- The place with these names below the folder. -/
def locate (f : Folder) (names : List Text) : Place :=
  match f.files.find? fun (way, _) => way == names with
  | some (_, content) => .file content
  | none =>
    if names.isEmpty || (f.folders ++ f.files.map (·.1)).any names.isPrefixOf then .folder names
    else .nowhere

/-- The number of bytes in the UTF-8 form of a text. -/
def byteLength (t : Text) : Nat := (t.flatMap Utf8.encode).length

/-- Goes from a place along the names of a path. No name may have more than 255 bytes; `parent` is
what lies above the folder. -/
def walk (f : Folder) (parent : Place) (path : Text) :
    Place → List Text → Except FileError Bytes
  | .file content, [] => .ok content
  | .folder _, [] => .error (.isFolder path)
  | .above, [] => .error (.isFolder path)
  | .nowhere, _ => .error (.notFound path)
  | .file _, _ :: _ => .error (.notFolder path)
  | .above, name :: names =>
    if name = ".." then f.walk parent path .above names
    else if 255 < byteLength name then .error (.nameTooLong path)
    else f.walk parent path .nowhere names
  | .folder here, name :: names =>
    if name = ".." then
      f.walk parent path (if here.isEmpty then parent else .folder here.dropLast) names
    else if 255 < byteLength name then .error (.nameTooLong path)
    else f.walk parent path (f.locate (here ++ [name])) names

/-- Reads the file at a path of fewer than 4096 bytes. -/
def read (f : Folder) (parent : Place) (p : Path) : Except FileError Bytes :=
  if p.print.any (·.val == 0) then .error .embeddedNul
  else if 4096 ≤ byteLength p.print then .error (.nameTooLong p.print)
  else f.walk parent p.print (.folder []) p.names

end Folder

/-- What a program can see of the files and the users. -/
structure FileSystem where
  /-- The folder in which the program works. -/
  here : Folder
  /-- The root; nothing lies above it. -/
  root : Folder
  /-- The homes of the users. The current user has the empty name. -/
  homes : List (Text × Text)
deriving DecidableEq

namespace FileSystem

/-- The home of a user. -/
def home? (s : FileSystem) (user : Text) : Option Text :=
  (s.homes.find? fun (name, _) => name == user).map (·.2)

/-- Reads the file at a path. -/
def read (s : FileSystem) (p : Path) : Except FileError Bytes :=
  if p.root.isEmpty then s.here.read .above p else s.root.read (.folder []) p

/-- The homes in a list of accounts: a line for each, with the name in the first field and the
home in the sixth. -/
def homesOfAccounts (accounts : Text) : List (Text × Text) :=
  (accounts.split (.ofChar '\n')).filterMap fun line =>
    match line.split (.ofChar ':') with
    | name :: _ :: _ :: _ :: _ :: home :: _ => some (name, home)
    | _ => none

end FileSystem

end SexpReader
