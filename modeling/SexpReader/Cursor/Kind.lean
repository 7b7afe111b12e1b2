import SexpReader.Binary.Endian
import SexpReader.Value

/-!
# Kinds of values

A `Kind` is a sort of value that can be read where a cursor stands. All kinds but `char` have a
fixed width and are stored with the least significant byte first. A character has the width of its
UTF-8 form, and one byte is enough to read something.
-/

namespace SexpReader

/-- A sort of value that can be read. -/
inductive Kind where
  | char
  | byte
  | int8
  | int16
  | int32
  | int64
  | uint8
  | uint16
  | uint32
  | uint64
  | float32
  | float64
deriving DecidableEq

namespace Kind

/-- All kinds, in the order in which messages list them. -/
def all : List Kind :=
  [char, byte, int8, int16, int32, int64, uint8, uint16, uint32, uint64, float32, float64]

/-- The name of a kind. -/
def name : Kind → Text
  | char => "char"
  | byte => "byte"
  | int8 => "int8"
  | int16 => "int16"
  | int32 => "int32"
  | int64 => "int64"
  | uint8 => "uint8"
  | uint16 => "uint16"
  | uint32 => "uint32"
  | uint64 => "uint64"
  | float32 => "float32"
  | float64 => "float64"

/-- The kind with a name. -/
def ofName? (name : Text) : Option Kind := all.find? fun k => k.name == name

/-- The number of bytes that have to be there. -/
def width : Kind → Nat
  | char | byte | int8 | uint8 => 1
  | int16 | uint16 => 2
  | int32 | uint32 | float32 => 4
  | int64 | uint64 | float64 => 8

/-- The value of a kind of fixed width that these bytes hold. -/
def decode (bs : Bytes) : Kind → Value
  | char => .none
  | byte | uint8 | uint16 | uint32 | uint64 => .int (Endian.read bs)
  | int8 | int16 | int32 | int64 => .int (Endian.readSigned bs)
  | float32 => .double (.widen (Endian.read bs))
  | float64 => .double (.ofPattern (Endian.read bs))

theorem ofName?_name (k : Kind) : ofName? k.name = some k := by
  cases k <;> rfl

end Kind

end SexpReader
