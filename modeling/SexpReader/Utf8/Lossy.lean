import SexpReader.Utf8.Glyph

/-!
# Decoding a whole buffer with replacement

`Utf8.decodeLossy` turns every byte sequence into a text. Where the bytes are not well-formed it
writes one `U+FFFD` for each longest piece that could have started a character, so a character
that breaks off after two bytes gives one replacement and not two.

The decoder goes through the bytes once. Which second byte may follow a lead byte is a table: it
keeps overlong forms, surrogates and numbers above `0x10FFFF` out, so every third and fourth byte
may be any continuation byte.
-/

namespace SexpReader

namespace Utf8

/-- What the decoder knows between two bytes. -/
inductive Pending where
  /-- No character has been started. -/
  | idle
  /-- A character has been started: `bits` were read, `more` bytes are missing, and the next of
  them lies between `lo` and `hi`. -/
  | inside (bits more : Nat) (lo hi : Nat)
deriving DecidableEq

/-- The characters written and the state reached at a byte that starts a character. -/
def beginByte (b : UInt8) : Text × Pending :=
  let n := b.toNat
  if h : n < 0x80 then ([⟨n, by omega⟩], .idle)
  else if n < 0xC2 then ([.replacement], .idle)
  else if n < 0xE0 then ([], .inside (n % 0x20) 1 0x80 0xBF)
  else if n = 0xE0 then ([], .inside (n % 0x10) 2 0xA0 0xBF)
  else if n = 0xED then ([], .inside (n % 0x10) 2 0x80 0x9F)
  else if n < 0xF0 then ([], .inside (n % 0x10) 2 0x80 0xBF)
  else if n = 0xF0 then ([], .inside (n % 0x08) 3 0x90 0xBF)
  else if n < 0xF4 then ([], .inside (n % 0x08) 3 0x80 0xBF)
  else if n = 0xF4 then ([], .inside (n % 0x08) 3 0x80 0x8F)
  else ([.replacement], .idle)

/-- The characters written and the state reached at any byte. A byte that cannot continue the
character started gives up that character and starts afresh. -/
def feedByte : Pending → UInt8 → Text × Pending
  | .idle, b => beginByte b
  | .inside bits more lo hi, b =>
    if lo ≤ b.toNat ∧ b.toNat ≤ hi then
      let bits := bits * 64 + b.toNat % 64
      if more ≤ 1 then ([(CodePoint.ofScalar? bits).getD .replacement], .idle)
      else ([], .inside bits (more - 1) 0x80 0xBF)
    else
      let (out, next) := beginByte b
      (.replacement :: out, next)

/-- The characters written at the end of the bytes. -/
def Pending.flush : Pending → Text
  | .idle => []
  | .inside .. => [.replacement]

/-- Decodes the bytes that follow in a given state. -/
def decodeFrom : Pending → Bytes → Text
  | state, [] => state.flush
  | state, b :: rest =>
    let (out, next) := feedByte state b
    out ++ decodeFrom next rest

/-- Decodes a buffer, with `U+FFFD` for what is not well-formed. -/
def decodeLossy (buffer : Bytes) : Text := decodeFrom .idle buffer

end Utf8

end SexpReader
