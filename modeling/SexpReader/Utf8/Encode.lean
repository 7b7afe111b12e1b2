import SexpReader.Text.Quoted

/-!
# Encoding texts as UTF-8

`Utf8.encode` writes one code point in one to four bytes and `Utf8.encodeText` a whole text. A
surrogate has no encoding: a text that holds one is refused, and the error names the first run of
neighbouring surrogates by its positions in the text.
-/

namespace SexpReader

/-- A sequence of bytes. -/
abbrev Bytes := List UInt8

namespace Utf8

/-- The number of bytes that the code point `n` takes. No range is checked: what is below `0x80`
takes one byte and what is above `0xFFFF` takes four. -/
def width (n : Int) : Nat :=
  if n ≤ 0x7F then 1
  else if n ≤ 0x7FF then 2
  else if n ≤ 0xFFFF then 3
  else 4

theorem width_pos (n : Int) : 0 < width n := by
  unfold width; split <;> (try split) <;> (try split) <;> omega

/-- The error of asking for the width of a text that is not one character. -/
structure LengthError where
  length : Nat
deriving DecidableEq

/-- Tells how long the text was. -/
def LengthError.message (e : LengthError) : Text :=
  "ord() expected a character, but string of length " ++ Text.ofNat e.length ++ " found"

/-- The width of the only character of a text. -/
def widthOfText : Text → Except LengthError Nat
  | [c] => .ok (width c.val)
  | t => .error ⟨t.length⟩

/-- The continuation byte with the low six bits of `n`. -/
def trail (n : Nat) : UInt8 := UInt8.ofNat (0x80 + n % 64)

/-- The UTF-8 form of a code point: the lead byte tells the width, each further byte holds six
bits. The bytes that this gives for a surrogate are not well-formed. -/
def encode (c : CodePoint) : Bytes :=
  if c.val ≤ 0x7F then [UInt8.ofNat c.val]
  else if c.val ≤ 0x7FF then [UInt8.ofNat (0xC0 + c.val / 64), trail c.val]
  else if c.val ≤ 0xFFFF then
    [UInt8.ofNat (0xE0 + c.val / 4096), trail (c.val / 64), trail c.val]
  else
    [UInt8.ofNat (0xF0 + c.val / 262144), trail (c.val / 4096), trail (c.val / 64), trail c.val]

theorem length_encode (c : CodePoint) : (encode c).length = width c.val := by
  unfold encode width
  grind

/-- A run of neighbouring surrogates in a text: the first of them, and the positions of the first
and the last. -/
structure SurrogateRun where
  surrogate : CodePoint
  first : Nat
  last : Nat
deriving DecidableEq

/-- The first run of surrogates in a text, if there is one. -/
def surrogateRun? (t : Text) : Option SurrogateRun :=
  let before := t.takeWhile fun c => !c.isSurrogate
  match (t.drop before.length).takeWhile CodePoint.isSurrogate with
  | [] => none
  | c :: run => some ⟨c, before.length, before.length + run.length⟩

/-- Says which characters could not be encoded. A single one is shown, more are only counted. -/
def SurrogateRun.message (e : SurrogateRun) : Text :=
  let place : Text :=
    if e.first = e.last then
      "character '" ++ e.surrogate.numericEscape ++ "' in position " ++ Text.ofNat e.first
    else
      "characters in position " ++ Text.ofNat e.first ++ "-" ++ Text.ofNat e.last
  "'utf-8' codec can't encode " ++ place ++ ": surrogates not allowed"

/-- The UTF-8 form of a text without surrogates. -/
def encodeText (t : Text) : Except SurrogateRun Bytes :=
  match surrogateRun? t with
  | some run => .error run
  | none => .ok (t.flatMap encode)

end Utf8

end SexpReader
