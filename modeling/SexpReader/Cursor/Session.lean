import SexpReader.Cursor.Read
import SexpReader.Reader.Parse

/-!
# Sessions

An `Operation` is one thing to do with a cursor, as a value, and a session does a sequence of them
one after the other. `Cursor.perform` gives the answer and the cursor afterwards; an operation
that is refused leaves the cursor as it was, and the session goes on.
-/

namespace SexpReader

/-- One thing to do with a cursor. -/
inductive Operation where
  | position
  | line
  | column
  | size
  | remaining
  | buffer
  | print
  | isEmpty
  | advance (count : Int) (columns : Option Int)
  | advanceLine
  | get (want : Want)
  | take (want : Want)
  | expect (want : Want) (expected : Value)
  | accept (want : Want) (expected : Value)
  | parse (tokens : Tokens) (tracing : Bool)

/-- The answer to an operation. -/
inductive Reply where
  | value (v : Value)
  | parsed (p : Parsed)

/-- Why an operation was refused. -/
inductive Refusal where
  | cursor (error : Cursor.Error)
  | dialect (error : Dialect.Error)
deriving DecidableEq

namespace Cursor

/-- The answer and the cursor after it. A refusal does not move the cursor. -/
def settle (c : Cursor) : Except Error (Value × Cursor) → Except Refusal Reply × Cursor
  | .ok (v, after) => (.ok (.value v), after)
  | .error e => (.error (.cursor e), c)

/-- Does one thing. -/
def perform (c : Cursor) : Operation → Except Refusal Reply × Cursor
  | .position => (.ok (.value (.int c.mark.position)), c)
  | .line => (.ok (.value (.int c.mark.line)), c)
  | .column => (.ok (.value (.int c.mark.column)), c)
  | .size => (.ok (.value (.int c.size)), c)
  | .remaining => (.ok (.value (.int c.remaining)), c)
  | .buffer => (.ok (.value (.bytes c.buffer)), c)
  | .print => (.ok (.value (.text c.print)), c)
  | .isEmpty => (.ok (.value (.bool c.isEmpty)), c)
  | .advance count columns => c.settle ((c.advance count columns).map fun after => (.none, after))
  | .advanceLine => (.ok (.value .none), c.advanceLine)
  | .get want => c.settle ((c.get want).map fun v => (v, c))
  | .take want => c.settle (c.take want)
  | .expect want expected => c.settle ((c.expect want expected).map fun b => (.bool b, c))
  | .accept want expected =>
    c.settle ((c.accept want expected).map fun (b, after) => (.bool b, after))
  | .parse tokens tracing =>
    match Dialect.ofTokens tokens with
    | .error e => (.error (.dialect e), c)
    | .ok d =>
      let p := c.parse d tracing
      (.ok (.parsed p), p.cursor)

/-- Does one thing after the other and gives the answers, each with the mark after it. -/
def session (c : Cursor) : List Operation → List (Except Refusal Reply × Mark)
  | [] => []
  | op :: ops =>
    let (answer, after) := c.perform op
    (answer, after.mark) :: session after ops

end Cursor

end SexpReader
