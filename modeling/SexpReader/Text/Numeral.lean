import SexpReader.Text.Quoted

/-!
# Whole numbers in texts

`Numeral.read` reads a whole number from a text. Blanks around the number are ignored; then come a
sign, which may be missing, and decimal digits of any script, between any two of which may stand
one underscore. A run of more than `Numeral.digitLimit` digits is refused, even if what follows it
would be refused anyway.
-/

namespace SexpReader

namespace Numeral

/-- The zeros of the decimal scripts. The other nine digits of a script follow its zero. -/
def zeros : List Nat := [
  0x30, 0x660, 0x6F0, 0x7C0, 0x966, 0x9E6, 0xA66, 0xAE6, 0xB66, 0xBE6, 0xC66, 0xCE6, 0xD66,
  0xDE6, 0xE50, 0xED0, 0xF20, 0x1040, 0x1090, 0x17E0, 0x1810, 0x1946, 0x19D0, 0x1A80, 0x1A90,
  0x1B50, 0x1BB0, 0x1C40, 0x1C50, 0xA620, 0xA8D0, 0xA900, 0xA9D0, 0xA9F0, 0xAA50, 0xABF0,
  0xFF10, 0x104A0, 0x10D30, 0x11066, 0x110F0, 0x11136, 0x111D0, 0x112F0, 0x11450, 0x114D0,
  0x11650, 0x116C0, 0x11730, 0x118E0, 0x11950, 0x11C50, 0x11D50, 0x11DA0, 0x16A60, 0x16AC0,
  0x16B50, 0x1D7CE, 0x1D7D8, 0x1D7E2, 0x1D7EC, 0x1D7F6, 0x1E140, 0x1E2F0, 0x1E950, 0x1FBF0]

/-- The value of a decimal digit. -/
def digit? (c : CodePoint) : Option Nat :=
  (zeros.find? fun z => z ≤ c.val && c.val < z + 10).map (c.val - ·)

/-- The blanks that may surround a number: those of ASCII and the separators beyond it. -/
def isBlank (c : CodePoint) : Bool :=
  CodePoint.inRanges c.val [(0x09, 0x0D), (0x20, 0x20), (0x85, 0x85), (0xA0, 0xA0),
    (0x1680, 0x1680), (0x2000, 0x200A), (0x2028, 0x2029), (0x202F, 0x202F), (0x205F, 0x205F),
    (0x3000, 0x3000)]

/-- The underscore between two digits. -/
def isUnderscore (c : CodePoint) : Bool := c.val == 0x5F

/-- Why a text is not a number. -/
inductive Error where
  | malformed (t : Text)
  | tooLong (digits : Nat)
deriving DecidableEq

/-- The number of digits a numeral may have. -/
def digitLimit : Nat := 4300

/-- A text is shown up to this length in a message. -/
def shownLength : Nat := 200

/-- The error in a sentence. -/
def Error.message : Error → Text
  | .malformed t => "invalid literal for int() with base 10: " ++ t.quoted.take shownLength
  | .tooLong digits =>
    "Exceeds the limit (" ++ Text.ofNat digitLimit
      ++ " digits) for integer string conversion: value has " ++ Text.ofNat digits
      ++ " digits; use sys.set_int_max_str_digits() to increase the limit"

/-- The sign, `true` for a minus, and what follows it. -/
def sign : Text → Bool × Text
  | [] => (false, [])
  | c :: rest =>
    if c.val = 0x2D then (true, rest)
    else if c.val = 0x2B then (false, rest)
    else (false, c :: rest)

/-- Every underscore has a digit on either side; `after` tells whether a digit came before. -/
def wellSpaced : Bool → Text → Bool
  | after, [] => after
  | after, c :: rest =>
    if isUnderscore c then after && wellSpaced false rest else wellSpaced true rest

/-- The number with these digits. -/
def ofDigits (ds : List Nat) : Nat := ds.foldl (fun n d => n * 10 + d) 0

/-- Reads a whole number. -/
def read (t : Text) : Except Error Int :=
  let (negative, rest) := sign (t.dropWhile isBlank)
  let isPart := fun c => (digit? c).isSome || isUnderscore c
  let run := rest.takeWhile isPart
  let digits := run.filterMap digit?
  if !wellSpaced false run then .error (.malformed t)
  else if digitLimit < digits.length then .error (.tooLong digits.length)
  else if (rest.dropWhile isPart).all isBlank then
    .ok (if negative then -(ofDigits digits : Int) else ofDigits digits)
  else .error (.malformed t)

end Numeral

end SexpReader
