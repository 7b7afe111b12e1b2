import SexpReader.Cursor.Basic
import SexpReader.Failure
import SexpReader.Tree.Print

/-!
# The trace of a reading

While it reads, the reader can report what happens. An `expression` event tells that an attempt to
read one expression has ended, with its outcome and the place reached; a `listEnd` event tells
that an attempt to read one more element of a list has failed, which is how a list comes to its
end.
-/

namespace SexpReader

/-- What came of reading an expression. -/
abbrev Outcome := Except Failure Node

/-- The printed form of an outcome, with bounds if `placed` says so. -/
def Outcome.print (placed : Bool) : Outcome → Text
  | .ok node => node.print placed
  | .error failure => failure.print

/-- Something to report. -/
inductive Event where
  | expression (outcome : Outcome) (mark : Mark)
  | listEnd (failure : Failure)

namespace Event

/-- The line that reports an event in a source of `size` bytes. -/
def print (size : Nat) : Event → Text
  | .expression outcome mark =>
    "sexp: " ++ outcome.print true ++ " " ++ mark.print size ++ "\n"
  | .listEnd failure => "list end: " ++ failure.print ++ "\n"

/-- The report on a sequence of events. -/
def printAll (size : Nat) (events : List Event) : Text := events.flatMap (print size)

end Event

end SexpReader
