import SexpReader.Fault
import SexpReader.Index
import SexpReader.Reader.Event
import SexpReader.Tree.Convert

/-!
# Looking at what was read

An `Entry` is anything that the reader hands out, and what can be built from that by hand: an
expression, a fault, or a list that holds faults among its elements. Entries can be compared,
printed, converted and taken apart, and they have attributes.

Atoms and lists never change; the fields and attributes of a fault can be set. What an entry
cannot do is refused with an error that names its sort.
-/

namespace SexpReader

/-- A tree that may hold faults. -/
abbrev Entry := Tree Fault

/-- The outcome of reading as an entry. -/
def Outcome.toEntry : Outcome → Entry
  | .ok n => n.toTree
  | .error f => .leaf f.toFault

namespace Entry

/-- What an entry can refuse. -/
inductive Error where
  | missing (label field : Text)
  | immutable (label : Text)
  | derivedMessage (label : Text)
  | noLength (label : Text)
  | notSubscriptable (label : Text)
  | notIterable (label : Text)
  | notContainer (label : Text)
  | index (error : Index.Error)
  | zeroStep
deriving DecidableEq

/-- The error in a sentence. -/
def Error.message : Error → Text
  | .missing label field =>
    "'" ++ label ++ "' object has no attribute '" ++ field ++ "'"
  | .immutable label => label ++ " is immutable"
  | .derivedMessage label => "property 'message' of '" ++ label ++ "' object has no setter"
  | .noLength label => "object of type '" ++ label ++ "' has no len()"
  | .notSubscriptable label => "'" ++ label ++ "' object is not subscriptable"
  | .notIterable label => "'" ++ label ++ "' object is not iterable"
  | .notContainer label => "argument of type '" ++ label ++ "' is not iterable"
  | .index error => error.message "tuple index out of range"
  | .zeroStep => "slice step cannot be zero"

/-- The sort of an entry. -/
def label : Entry → Text
  | .atom .. => "Atom"
  | .list .. => "List"
  | .leaf f => f.label

/-- Whether two entries have the same hash. Equal entries do. -/
def hashesAlike : Entry → Entry → Bool := Tree.sameBy Fault.hashesAlike

/-- The number of different entries. -/
def countDistinct (es : List Entry) : Nat := (es.eraseDupsBy Tree.same).length

/-- Everything counts as true but the empty list. -/
def isTrue : Entry → Bool
  | .list [] _ => false
  | _ => true

/-- The fault that an entry is, or the error of asking something else for a field of faults. -/
def asFault (field : Text) (e : Entry) : Except Error Fault :=
  match e with
  | .leaf f => .ok f
  | _ => .error (.missing e.label field)

/-- The message of a fault that has one. -/
def message (e : Entry) : Except Error Text := do
  match (← e.asFault "message").message? with
  | some m => return m
  | none => throw (.missing e.label "message")

/-- A fault as it is raised. -/
def toSyntaxError (e : Entry) : Except Error SyntaxError := do
  let f ← e.asFault "exception"
  return ⟨← e.message, f.line, f.column⟩

/-- The printed form, with bounds if `placed` says so. A fault without a message cannot be
printed, nor can a list that holds one. -/
def print (placed : Bool) (e : Entry) : Except Error Text :=
  match e.leaves.find? fun f => f.message?.isNone with
  | some f => .error (.missing f.label "message")
  | none => .ok (Tree.print placed e)

/-- The expression that an entry is, or the error of asking the first fault in it for a field of
expressions. -/
def toNode (field : Text) (e : Entry) : Except Error Node :=
  e.replaceM fun f => .error (.missing f.label field)

/-- The two ends of the bounds. A fault has them only if it was given them as attributes. -/
def bounds (e : Entry) : Except Error (Value × Value) :=
  match e with
  | .atom _ b | .list _ b => .ok (ofEnd b.start, ofEnd b.stop)
  | .leaf f => do return (← read f "point_beg", ← read f "point_end")
where
  /-- One end of the bounds as a value. -/
  ofEnd (n : Option Int) : Value := (n.map .int).getD .none
  /-- An attribute of a fault. -/
  read (f : Fault) (field : Text) : Except Error Value :=
    match f.attribute? field with
    | some v => .ok v
    | none => .error (.missing f.label field)

/-- The elements of a list, or the error of asking something else for them. -/
def elements (refusal : Text → Error) (e : Entry) : Except Error (List Entry) :=
  match e with
  | .list xs _ => .ok xs
  | _ => .error (refusal e.label)

/-- The number of elements. -/
def length (e : Entry) : Except Error Nat := do
  return (← e.elements .noLength).length

/-- The element at a place; a negative place counts from the end. -/
def get (e : Entry) (place : Int) : Except Error Entry := do
  (Index.get (← e.elements .notSubscriptable) place).mapError .index

/-- The elements that a slice selects. -/
def slice (e : Entry) (s : Slice) : Except Error (List Entry) := do
  (s.select (← e.elements .notSubscriptable)).mapError fun _ => .zeroStep

/-- Whether an entry is one of the elements. -/
def contains (e x : Entry) : Except Error Bool := do
  return (← e.elements .notContainer).any fun y => y.same x

/-- Sets an attribute. Atoms and lists refuse every one. -/
def set (e : Entry) (name : Text) (value : Value) : Except Error Entry :=
  match e with
  | .leaf f =>
    match f.set? name value with
    | some g => .ok (.leaf g)
    | none => .error (.derivedMessage f.label)
  | _ => .error (.immutable e.label)

/-- Sets the bounds, which atoms and lists refuse and faults do not know. -/
def setBounds (e : Entry) : Error :=
  match e with
  | .leaf f => .missing f.label "_set_bounds"
  | _ => .immutable e.label

/-- A fault cannot be converted. -/
def refuseConversion (f : Fault) : Conversion.Error := .unconvertible f.label

/-- Converts an entry. -/
def convert (c : Conversion) (e : Entry) : Except Conversion.Error Datum :=
  c.run refuseConversion e

/-- Converts an entry without change, and gives the layers in the order in which they came up. -/
def traced (e : Entry) : Except Conversion.Error (Datum × List Datum) :=
  Conversion.traced refuseConversion e

end Entry

end SexpReader
