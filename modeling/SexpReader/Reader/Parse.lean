import SexpReader.Reader.Machine

/-!
# Parsing

`Cursor.parse` reads one expression where a cursor stands, with the blanks around it, and wants
nothing to be left: if something is, the failure names the first character left over, whatever the
expression itself came to. So a closing bracket too many is reported as the character it is.

`parseBytes` and `parseText` parse a whole source, and `readBytes` and `readText` raise the
failure.
-/

namespace SexpReader

/-- The result of parsing where a cursor stands. -/
structure Parsed where
  outcome : Outcome
  cursor : Cursor
  events : List Event

/-- The report on the events of parsing. -/
def Parsed.trace (p : Parsed) : Text := Event.printAll p.cursor.size p.events

/-- The outcome of a reading after which nothing may be left. -/
def Reading.whole (r : Reading) : Outcome :=
  match r.next? with
  | none => r.outcome
  | some c => .error ⟨.unexpected [c], "end of input", r.mark.line, r.mark.column⟩

namespace Cursor

/-- Parses the rest of the buffer as exactly one expression. -/
def parse (d : Dialect) (tracing : Bool) (c : Cursor) : Parsed :=
  let r := Reader.readGlyphs d tracing c.mark (Utf8.glyphs c.rest)
  ⟨r.whole, { c with mark := r.mark }, r.events⟩

end Cursor

/-- Why a text could not be read. -/
inductive ReadError where
  | encoding (run : Utf8.SurrogateRun)
  | parsing (failure : Failure)
deriving DecidableEq

/-- What is shown when the error is raised. -/
def ReadError.message : ReadError → Text
  | .encoding run => run.message
  | .parsing failure => failure.toSyntaxError.display

/-- Raises the failure of an outcome. -/
def Outcome.raise : Outcome → Except ReadError Node
  | .ok node => .ok node
  | .error failure => .error (.parsing failure)

/-- Parses a buffer. -/
def parseBytes (d : Dialect) (buffer : Bytes) : Outcome :=
  ((Cursor.ofBytes buffer).parse d false).outcome

/-- Parses a text. -/
def parseText (d : Dialect) (t : Text) : Except Utf8.SurrogateRun Outcome :=
  (Utf8.encodeText t).map (parseBytes d)

/-- Parses a buffer and raises the failure. -/
def readBytes (d : Dialect) (buffer : Bytes) : Except ReadError Node :=
  (parseBytes d buffer).raise

/-- Parses a text and raises the failure. -/
def readText (d : Dialect) (t : Text) : Except ReadError Node :=
  match parseText d t with
  | .error run => .error (.encoding run)
  | .ok outcome => outcome.raise

end SexpReader
