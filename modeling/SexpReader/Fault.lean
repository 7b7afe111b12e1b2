import SexpReader.Failure
import SexpReader.Tree.Print
import SexpReader.Value

/-!
# Failures as things that can be looked at

A `Fault` is a failure, or what is left of one without a cause: what was expected and where, but
not what was met. It has fields, which can be set, and it can be given further attributes.

The message of a fault with a cause follows its fields and cannot be set. A fault without a cause
has no message until it is given one as an attribute. Attributes play no part in comparisons.
-/

namespace SexpReader

/-- A failure that may lack its cause and may have further attributes, the last one set first. -/
structure Fault where
  cause? : Option Cause
  expected : Text
  line : Int
  column : Int
  attributes : List (Text × Value)
deriving DecidableEq

/-- A failure as a fault. -/
def Failure.toFault (f : Failure) : Fault := ⟨some f.cause, f.expected, f.line, f.column, []⟩

/-- The remainder modulo `2 ^ 61 - 1` by which a whole number goes into a hash. Minus one has none
of its own. -/
def hashResidue (n : Int) : Int :=
  let r := n.tmod 0x1FFFFFFFFFFFFFFF
  if r = -1 then -2 else r

namespace Fault

/-- The failure, if there is a cause. -/
def failure? (f : Fault) : Option Failure :=
  f.cause?.map fun cause => ⟨cause, f.expected, f.line, f.column⟩

/-- The name of the sort of fault. -/
def label (f : Fault) : Text :=
  match f.failure? with
  | some failure => failure.label
  | none => "ParseError"

/-- The value of a further attribute. -/
def attribute? (f : Fault) (name : Text) : Option Value :=
  (f.attributes.find? fun (key, _) => key == name).map (·.2)

/-- The message that follows from the fields, or the one that was given. -/
def message? (f : Fault) : Option Text :=
  match f.failure? with
  | some failure => some failure.message
  | none =>
    match f.attribute? "message" with
    | some (.text t) => some t
    | _ => none

/-- The printed form; without a message there is nothing to quote. -/
def print (f : Fault) : Text := Failure.printLabelled f.label (f.message?.getD [])

instance : Printed Fault := ⟨print⟩

/-- Equality of faults apart from their attributes. -/
def same (f g : Fault) : Bool :=
  f.cause? == g.cause? && f.expected == g.expected && f.line == g.line && f.column == g.column

instance : BEq Fault := ⟨same⟩

/-- Whether two faults have the same hash. Equal ones do; lines and columns go in by their
residues. -/
def hashesAlike (f g : Fault) : Bool :=
  f.cause? == g.cause? && f.expected == g.expected && hashResidue f.line == hashResidue g.line
    && hashResidue f.column == hashResidue g.column

/-- Sets a field, or a further attribute if no field has this name and takes this sort of value.
The message of a fault with a cause cannot be set. -/
def set? (f : Fault) (name : Text) (value : Value) : Option Fault :=
  let further := { f with attributes := (name, value) :: f.attributes }
  if name = "message" then if f.cause?.isSome then none else some further
  else if name = "expected" then
    match value with
    | .text t => some { f with expected := t }
    | _ => some further
  else if name = "line" then
    match value with
    | .int n => some { f with line := n }
    | _ => some further
  else if name = "column" then
    match value with
    | .int n => some { f with column := n }
    | _ => some further
  else if name = "found" then
    match f.cause?, value with
    | some (.unexpected _), .text t => some { f with cause? := some (.unexpected t) }
    | _, _ => some further
  else some further

end Fault

end SexpReader
