import SexpReader.Text.Quoted

/-!
# Paths

A `Path` is a root, which may be missing, and the names on the way. Reading a path drops empty
names and single dots; two dots stay, since only the file system can tell where they lead. A path
that comes to nothing is printed as a single dot.

A path without a root whose first name begins with a tilde starts in the home of the user whom the
rest of that name tells, or of the current user if there is no rest. `Path.expand?` puts the home
in the place of that name.
-/

namespace SexpReader

/-- A path without empty names and single dots. -/
structure Path where
  root : Text
  names : List Text
deriving DecidableEq

namespace Path

/-- The character between the names of a path. -/
def slash : CodePoint := .ofChar '/'

/-- The character in front of the name of a user. -/
def tilde : CodePoint := .ofChar '~'

/-- The root of a path. Exactly two slashes at the front are a root of their own. -/
def rootOf (t : Text) : Text :=
  match (t.takeWhile (· == slash)).length with
  | 0 => []
  | 2 => [slash, slash]
  | _ => [slash]

/-- Reads a path. -/
def ofText (t : Text) : Path :=
  ⟨rootOf t, (t.split slash).filter fun name => name != [] && name != "."⟩

/-- The printed form of a path. -/
def print (p : Path) : Text :=
  match p.root ++ Text.join [slash] p.names with
  | [] => "."
  | t => t

/-- The path of a home. A home without any name is the root. -/
def ofHome (home : Text) : Path :=
  if home.all (· == slash) then ⟨[slash], []⟩ else ofText home

/-- The user in whose home the path starts. -/
def user? (p : Path) : Option Text :=
  match p.root, p.names with
  | [], (c :: user) :: _ => if c = tilde then some user else none
  | _, _ => none

/-- The path with its home in place. Nothing comes of it if the user has no home, or one that
again begins with a tilde. -/
def expand? (home : Text → Option Text) (p : Path) : Option Path :=
  match p.user? with
  | none => some p
  | some user => do
    let h ← home user
    guard (h.head? ≠ some tilde)
    return ⟨(ofHome h).root, (ofHome h).names ++ p.names.tail⟩

end Path

end SexpReader
