import SexpReader.Folder
import SexpReader.Reader.Parse

/-!
# Parsing many sources

A `Source` is a name and the bytes behind it, if they could be read. Parsing a sequence of sources
gives a `Report`: the trees and the failures, each in the order of the sources, and what is to be
written to the two output channels. A source that cannot be read ends the run there; what was
written before it stays.
-/

namespace SexpReader

/-- A name and what is behind it. -/
structure Source where
  name : Text
  content : Except FileError Bytes

/-- What came of parsing a sequence of sources. -/
structure Report where
  /-- For the standard output: the trees, and the trace if there is one. -/
  output : Text
  /-- For the standard error output: the failures. -/
  complaints : Text
  trees : List Node
  failures : List (Text × Failure)
  /-- The error that ended the run. -/
  stopped : Option FileError

namespace Report

/-- The report on no source. -/
def empty : Report := ⟨[], [], [], [], none⟩

/-- Puts a report after one that was not stopped. -/
def append (a b : Report) : Report :=
  ⟨a.output ++ b.output, a.complaints ++ b.complaints, a.trees ++ b.trees,
    a.failures ++ b.failures, b.stopped⟩

/-- The report on one source that could be read. With `tracing` on, bounds are shown and the trace
comes first. -/
def ofBytes (d : Dialect) (tracing : Bool) (name : Text) (buffer : Bytes) : Report :=
  let parsed := (Cursor.ofBytes buffer).parse d tracing
  match parsed.outcome with
  | .ok node => ⟨parsed.trace ++ node.print tracing ++ "\n", [], [node], [], none⟩
  | .error failure =>
    ⟨parsed.trace, name ++ ": " ++ failure.message ++ "\n", [], [(name, failure)], none⟩

/-- The report on a sequence of sources. -/
def ofSources (d : Dialect) (tracing : Bool) : List Source → Report
  | [] => empty
  | s :: rest =>
    match s.content with
    | .error e => { empty with stopped := some e }
    | .ok buffer => (ofBytes d tracing s.name buffer).append (ofSources d tracing rest)

end Report

end SexpReader
