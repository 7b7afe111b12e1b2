import SexpReader.Binary.Double
import SexpReader.Utf8.Encode

/-!
# Values and when they match

A `Value` is what can be read at a cursor, and what it can be compared with. Numbers match by
their exact value, whatever their sort: `true` matches one, a whole number matches a double only
if nothing has to be rounded, both zeros match, and what is not a number matches nothing. Values
of different sorts never match otherwise.
-/

namespace SexpReader

/-- A value read from a buffer, or one to compare it with. -/
inductive Value where
  | none
  | bool (b : Bool)
  | int (n : Int)
  | double (d : Double)
  | text (t : Text)
  | bytes (bs : Bytes)
deriving DecidableEq

/-- A number on the line of numbers with both infinities, in units of `2 ^ (-1074)`. -/
inductive Extended where
  | finite (units : Int)
  | infinite (negative : Bool)
deriving DecidableEq

namespace Extended

/-- A whole number. -/
def ofInt (n : Int) : Extended := .finite (n * (1 <<< 1074 : Nat))

/-- What a floating point number denotes, if it is a number. -/
def ofNumber? : Number → Option Extended
  | .nan => Option.none
  | .infinite negative => some (.infinite negative)
  | .finite negative units => some (.finite (if negative then -(units : Int) else units))

end Extended

namespace Value

/-- The name of the sort of a value. -/
def sort : Value → Text
  | .none => "NoneType"
  | .bool _ => "bool"
  | .int _ => "int"
  | .double _ => "float"
  | .text _ => "str"
  | .bytes _ => "bytes"

/-- The exact value of a number. -/
def number? : Value → Option Extended
  | .bool b => some (.ofInt b.toInt)
  | .int n => some (.ofInt n)
  | .double d => Extended.ofNumber? d.number
  | _ => Option.none

/-- Numbers match by exact value, everything else by being the same. -/
def agrees : Value → Value → Bool
  | .none, .none => true
  | .text t, .text u => t == u
  | .bytes bs, .bytes cs => bs == cs
  | v, w =>
    match v.number?, w.number? with
    | some x, some y => x == y
    | _, _ => false

end Value

end SexpReader
