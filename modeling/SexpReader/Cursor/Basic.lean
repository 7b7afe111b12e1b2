import SexpReader.Utf8.Glyph

/-!
# Cursors

A `Mark` is a place in a source: the number of bytes before it, and the line and column it has for
a reader. A `Cursor` is a buffer with a mark.

Bytes, columns and lines are counted separately. `Cursor.advance` moves over bytes and takes the
number of columns from its caller if that differs; `Cursor.advanceLine` starts a new line and
stays where it is. Lines and columns are integers, since a caller may move the column back.
-/

namespace SexpReader

/-- A place in a source. -/
structure Mark where
  position : Nat
  line : Int
  column : Int
deriving DecidableEq

namespace Mark

/-- The start of a source. -/
def origin : Mark := ⟨0, 1, 1⟩

/-- The place `bytes` further on in the same line. -/
def advance (m : Mark) (bytes : Nat) (columns : Int) : Mark :=
  ⟨m.position + bytes, m.line, m.column + columns⟩

/-- The same place as the start of a new line. -/
def advanceLine (m : Mark) : Mark := ⟨m.position, m.line + 1, 1⟩

/-- The place in a source of `size` bytes, printed. -/
def print (m : Mark) (size : Nat) : Text :=
  "<Stream " ++ Text.ofNat m.position ++ "/" ++ Text.ofNat size ++ " line " ++ Text.ofInt m.line
    ++ " column " ++ Text.ofInt m.column ++ ">"

end Mark

/-- A buffer and a place in it. -/
structure Cursor where
  buffer : Bytes
  mark : Mark
deriving DecidableEq

namespace Cursor

/-- What an operation on a cursor can refuse. -/
inductive Error where
  /-- More bytes were wanted than are left. -/
  | boundary (position requested size : Nat)
  /-- The cursor was to move back. -/
  | negativeAdvance (count : Int)
  /-- A negative number of bytes was wanted. -/
  | negativeCount (count : Int)
  /-- No kind of value has this name. -/
  | unknownKind (name : Text) (known : List Text)
  /-- Raw bytes were to be compared with a value of a sort that has no length. -/
  | noLength (sort : Text)
  /-- Raw bytes were to be compared with a text, which is no bytes before it is encoded. -/
  | noEncoding
  /-- A value of this sort was to be one of the bytes. -/
  | notWhole (sort : Text)
  /-- A whole number that is too small or too large was to be one of the bytes. -/
  | notByte
deriving DecidableEq

/-- The error in a sentence. -/
def Error.message : Error → Text
  | .boundary position requested size =>
    "cannot read " ++ Text.ofNat requested ++ " byte(s) at position " ++ Text.ofNat position
      ++ " of a " ++ Text.ofNat size ++ " byte buffer"
  | .negativeAdvance count => "cannot advance by " ++ Text.ofInt count
  | .negativeCount count => "cannot read " ++ Text.ofInt count ++ " bytes"
  | .unknownKind name known =>
    "unknown kind " ++ name.quoted ++ ", expected one of " ++ Text.parenthesised known
  | .noLength sort => "object of type '" ++ sort ++ "' has no len()"
  | .noEncoding => "string argument without an encoding"
  | .notWhole sort => "'" ++ sort ++ "' object cannot be interpreted as an integer"
  | .notByte => "bytes must be in range(0, 256)"

/-- A cursor at the start of a buffer. -/
def ofBytes (buffer : Bytes) : Cursor := ⟨buffer, .origin⟩

/-- A cursor at the start of the UTF-8 form of a text. -/
def ofText (t : Text) : Except Utf8.SurrogateRun Cursor := (Utf8.encodeText t).map ofBytes

/-- The number of bytes in the buffer. -/
def size (c : Cursor) : Nat := c.buffer.length

/-- The number of bytes after the cursor. -/
def remaining (c : Cursor) : Nat := c.size - c.mark.position

/-- The bytes after the cursor. -/
def rest (c : Cursor) : Bytes := c.buffer.drop c.mark.position

/-- No byte is left. -/
def isEmpty (c : Cursor) : Bool := c.mark.position == c.size

/-- The cursor, printed. -/
def print (c : Cursor) : Text := c.mark.print c.size

/-- Refuses unless `count` bytes are left. -/
def need (c : Cursor) (count : Nat) : Except Error Unit :=
  if c.mark.position + count ≤ c.size then .ok ()
  else .error (.boundary c.mark.position count c.size)

/-- The cursor `count` bytes further on, with its column moved by `columns`. -/
def moved (c : Cursor) (count : Nat) (columns : Int) : Cursor :=
  { c with mark := c.mark.advance count columns }

/-- Moves over `count` bytes. The column moves by as much unless `columns` says otherwise. -/
def advance (c : Cursor) (count : Int) (columns : Option Int) : Except Error Cursor :=
  if count < 0 then .error (.negativeAdvance count)
  else do
    c.need count.toNat
    return c.moved count.toNat (columns.getD count)

/-- Starts a new line. -/
def advanceLine (c : Cursor) : Cursor := { c with mark := c.mark.advanceLine }

end Cursor

end SexpReader
