import SexpReader.Cursor.Basic
import SexpReader.Cursor.Kind

/-!
# Reading values at a cursor

What is wanted is a kind, a kind given by its name, or a number of raw bytes. `Cursor.look` finds
the value and how far it reaches, and the four ways of reading follow from it: `get` leaves the
cursor where it is and `take` moves it past the value; `expect` tells whether the value is the
expected one, and `accept` moves past it only then.

The value is found before anything is compared, so the same errors arise in all four.

Raw bytes may also be compared with something that is not bytes itself. `Cursor.expectBytes` and
`Cursor.acceptBytes` read as many bytes as what is expected is long, and only then turn it into
bytes. So numbers in the range of a byte match the bytes that they spell, one after the other, and a
text is refused, but not before the bytes have been read.
-/

namespace SexpReader

/-- What is wanted at a cursor. -/
inductive Want where
  | kind (k : Kind)
  | named (name : Text)
  | bytes (count : Int)
deriving DecidableEq

/-- A value that was found, its width in bytes and in columns. -/
structure Found where
  value : Value
  width : Nat
  columns : Nat
deriving DecidableEq

/-- What raw bytes may be compared with: a value, or a sequence of values. -/
inductive Expected where
  | value (v : Value)
  | items (vs : List Value)
deriving DecidableEq

/-- Something that has a length, and the bytes that it is turned into. -/
structure Sized where
  length : Nat
  bytes : Except Cursor.Error Bytes

/-- The byte that one of several values is. -/
def Value.toByte : Value → Except Cursor.Error UInt8
  | .bool b => .ok (if b then 1 else 0)
  | .int n => if 0 ≤ n ∧ n < 256 then .ok (UInt8.ofNat n.toNat) else .error .notByte
  | v => .error (.notWhole v.sort)

namespace Expected

/-- The length of what is expected, and its bytes. A text has a length, but no bytes. -/
def sized : Expected → Except Cursor.Error Sized
  | .value (.bytes bs) => .ok ⟨bs.length, .ok bs⟩
  | .value (.text t) => .ok ⟨t.length, .error .noEncoding⟩
  | .value v => .error (.noLength v.sort)
  | .items vs => .ok ⟨vs.length, vs.mapM Value.toByte⟩

end Expected

namespace Cursor

/-- The glyph at the cursor. -/
def glyph? (c : Cursor) : Option Glyph :=
  match c.rest with
  | [] => none
  | b :: rest => some (Utf8.glyph b rest)

/-- Finds a character, which is one column wide. -/
def lookChar (c : Cursor) : Except Error Found :=
  match c.glyph? with
  | none => .error (.boundary c.mark.position 1 c.size)
  | some g => .ok ⟨.text [g.char], g.bytes.length, 1⟩

/-- Finds a value of some kind. -/
def lookKind (c : Cursor) (k : Kind) : Except Error Found :=
  match k with
  | .char => c.lookChar
  | k => do
    c.need k.width
    return ⟨k.decode (c.rest.take k.width), k.width, k.width⟩

theorem lookKind_of_ne_char (c : Cursor) {k : Kind} (h : k ≠ .char) :
    c.lookKind k = do
      c.need k.width
      return ⟨k.decode (c.rest.take k.width), k.width, k.width⟩ := by
  cases k with
  | char => exact (h rfl).elim
  | _ => rfl

/-- Finds a number of raw bytes. -/
def lookBytes (c : Cursor) (count : Int) : Except Error Found :=
  if count < 0 then .error (.negativeCount count)
  else do
    c.need count.toNat
    return ⟨.bytes (c.rest.take count.toNat), count.toNat, count.toNat⟩

/-- Finds what is wanted. A name that no kind has is refused before anything is read. -/
def look (c : Cursor) : Want → Except Error Found
  | .kind k => c.lookKind k
  | .named name =>
    match Kind.ofName? name with
    | none => .error (.unknownKind name (Kind.all.map Kind.name))
    | some k => c.lookKind k
  | .bytes count => c.lookBytes count

/-- The value at the cursor. -/
def get (c : Cursor) (w : Want) : Except Error Value := do
  return (← c.look w).value

/-- The value at the cursor, and the cursor behind it. -/
def take (c : Cursor) (w : Want) : Except Error (Value × Cursor) := do
  let found ← c.look w
  return (found.value, c.moved found.width found.columns)

/-- Tells whether the value at the cursor is the expected one. -/
def expect (c : Cursor) (w : Want) (expected : Value) : Except Error Bool := do
  return (← c.look w).value.agrees expected

/-- Tells whether the value at the cursor is the expected one, and moves behind it if so. -/
def accept (c : Cursor) (w : Want) (expected : Value) : Except Error (Bool × Cursor) := do
  let found ← c.look w
  if found.value.agrees expected then return (true, c.moved found.width found.columns)
  else return (false, c)

/-- Tells whether the raw bytes at the cursor are those that are expected. -/
def expectBytes (c : Cursor) (x : Expected) : Except Error Bool := do
  let expected ← x.sized
  let read ← c.get (.bytes expected.length)
  let bs ← expected.bytes
  return read.agrees (.bytes bs)

/-- Tells whether the raw bytes at the cursor are those that are expected, and moves behind them if
so. -/
def acceptBytes (c : Cursor) (x : Expected) : Except Error (Bool × Cursor) := do
  if ← c.expectBytes x then
    let expected ← x.sized
    return (true, c.moved expected.length expected.length)
  else return (false, c)

end Cursor

end SexpReader
