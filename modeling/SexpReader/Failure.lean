import SexpReader.Text.Name

/-!
# What can be wrong with an expression

A `Failure` is a value: it says what was met, what was expected instead, and in which line and
column. Its message is put together from these fields alone, and so is its printed form.

A `SyntaxError` is a failure in the form in which it is raised. Its display ends with the line
once more, as a signed number of 64 bits; a line that does not fit is shown as `-1`.
-/

namespace SexpReader

/-- What was met. -/
inductive Cause where
  | unexpected (found : Text)
  | endOfInput
deriving DecidableEq

/-- What was met, what was expected, and where. -/
structure Failure where
  cause : Cause
  expected : Text
  line : Int
  column : Int
deriving DecidableEq

/-- The form in which a failure is raised. -/
structure SyntaxError where
  message : Text
  line : Int
  column : Int
deriving DecidableEq

namespace Failure

/-- What was met, in words. -/
def subject (f : Failure) : Text :=
  match f.cause with
  | .unexpected found => found.described
  | .endOfInput => "end of input"

/-- The failure in a sentence. -/
def message (f : Failure) : Text :=
  "unexpected " ++ f.subject ++ " at line " ++ Text.ofInt f.line ++ " column "
    ++ Text.ofInt f.column ++ ", expected " ++ f.expected

/-- The name of the sort of failure. -/
def label (f : Failure) : Text :=
  match f.cause with
  | .unexpected _ => "UnexpectedChar"
  | .endOfInput => "UnexpectedEndOfInput"

/-- The label and the quoted message between angle brackets. -/
def printLabelled (label message : Text) : Text := "<" ++ label ++ " " ++ message.quoted ++ ">"

/-- The printed form of a failure. -/
def print (f : Failure) : Text := printLabelled f.label f.message

/-- The failure as it is raised. -/
def toSyntaxError (f : Failure) : SyntaxError := ⟨f.message, f.line, f.column⟩

end Failure

namespace SyntaxError

/-- The line as a signed number of 64 bits, or `-1`. -/
def shownLine (line : Int) : Int :=
  if -0x8000000000000000 ≤ line ∧ line < 0x8000000000000000 then line else -1

/-- The message followed by the line. -/
def display (e : SyntaxError) : Text :=
  e.message ++ " (line " ++ Text.ofInt (shownLine e.line) ++ ")"

end SyntaxError

end SexpReader
