import SexpReader.Text.Printable

/-!
# Quoted texts

`Text.quoted` writes a text on one line so that it can be read back: between quotation marks, with
a backslash before whatever would be mistaken for something else. Apostrophes are the marks unless
the text holds an apostrophe and no double quote.

A hidden code point is written as its number, in two, four or eight hexadecimal digits according
to its size.
-/

namespace SexpReader

namespace CodePoint

/-- The mark that texts are usually quoted with. -/
def apostrophe : CodePoint := ⟨0x27, by decide⟩

/-- The mark for texts that hold an apostrophe. -/
def doubleQuote : CodePoint := ⟨0x22, by decide⟩

/-- The character that announces an escape. -/
def backslash : CodePoint := ⟨0x5C, by decide⟩

/-- The hexadecimal digit of `n % 16`, in lower case. -/
def hexDigit (n : Nat) : CodePoint :=
  ⟨if n % 16 < 10 then 0x30 + n % 16 else 0x57 + n % 16, by split <;> omega⟩

/-- The last `width` hexadecimal digits of `n`, the most significant first. -/
def hex : Nat → Nat → Text
  | 0, _ => []
  | width + 1, n => hex width (n / 16) ++ [hexDigit n]

@[simp] theorem length_hex (width n : Nat) : (hex width n).length = width := by
  induction width generalizing n with
  | zero => rfl
  | succ width ih => simp [hex, ih]

/-- The number of a hidden code point after a backslash and the letter for its size. -/
def numericEscape (c : CodePoint) : Text :=
  if c.val ≤ 0xFF then "\\x" ++ hex 2 c.val
  else if c.val ≤ 0xFFFF then "\\u" ++ hex 4 c.val
  else "\\U" ++ hex 8 c.val

/-- How `c` is written between two of `mark`. -/
def escaped (mark c : CodePoint) : Text :=
  if c = mark ∨ c = backslash then [backslash, c]
  else if c.val = 0x0A then "\\n"
  else if c.val = 0x0D then "\\r"
  else if c.val = 0x09 then "\\t"
  else if c.isPrintable then [c]
  else c.numericEscape

end CodePoint

namespace Text

open CodePoint (apostrophe doubleQuote)

/-- The mark a text is quoted with. -/
def quoteMark (t : Text) : CodePoint :=
  if apostrophe ∈ t ∧ doubleQuote ∉ t then doubleQuote else apostrophe

/-- The text between quotation marks. -/
def quoted (t : Text) : Text :=
  t.quoteMark :: t.flatMap (CodePoint.escaped t.quoteMark) ++ [t.quoteMark]

/-- Quoted texts in square brackets, with a comma and a space between them. -/
def bracketed (ts : List Text) : Text :=
  "[" ++ join ", " (ts.map quoted) ++ "]"

/-- Quoted texts in round brackets, with a comma and a space between them. -/
def parenthesised (ts : List Text) : Text :=
  "(" ++ join ", " (ts.map quoted) ++ ")"

end Text

end SexpReader
