import SexpReader.Text.Quoted

/-!
# Names for characters in messages

Nine characters that are hard to see between quotation marks have names. `Text.described` is how a
message shows what was found: the name if the text is one named character, the quoted text
otherwise.
-/

namespace SexpReader

/-- The name of a character that has one. -/
def CodePoint.name? (c : CodePoint) : Option Text :=
  match c.val with
  | 0x00 => some "nul"
  | 0x08 => some "backspace"
  | 0x09 => some "tab"
  | 0x0A => some "newline"
  | 0x0B => some "vtab"
  | 0x0C => some "page"
  | 0x0D => some "return"
  | 0x20 => some "space"
  | 0x7F => some "rubout"
  | _ => none

/-- The name of the text if it is one named character, the quoted text otherwise. -/
def Text.described (t : Text) : Text :=
  match t with
  | [c] => c.name?.getD t.quoted
  | _ => t.quoted

end SexpReader
