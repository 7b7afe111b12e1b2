import SexpReader.Index
import SexpReader.Utf8.Encode

/-!
# Reading bytes one character at a time

A `Glyph` is a character together with the bytes it was read from. `Utf8.glyph` reads the one at
the front of a byte sequence: the lead byte announces a width, and the bytes of that width must be
the UTF-8 form of a scalar value. If they are not, or if there are too few of them, the lead byte
alone is the glyph and stands for `U+FFFD`, so that reading always goes on.

`Utf8.glyphs` cuts a whole buffer in this way. It steps over the bytes that belong to the last
glyph by counting them down, which keeps the recursion on the buffer itself.

`Utf8.glyphAt` reads at an offset that may count from the end of the buffer.
-/

namespace SexpReader

/-- A character and the bytes it was read from. -/
structure Glyph where
  char : CodePoint
  bytes : Bytes
deriving DecidableEq

namespace Utf8

/-- The width that a lead byte announces. Continuation bytes and everything from `0xF8` on
announce none. -/
def leadWidth? (lead : Int) : Option Nat :=
  if lead < 0x80 then some 1
  else if lead < 0xC0 then none
  else if lead < 0xE0 then some 2
  else if lead < 0xF0 then some 3
  else if lead < 0xF8 then some 4
  else none

/-- Continuation bytes are those from `0x80` to `0xBF`. -/
def isTrail (b : UInt8) : Bool := 0x80 ≤ b.toNat && b.toNat < 0xC0

/-- The bits of the code point that the lead byte of a sequence of this width holds. -/
def leadBits : Nat → UInt8 → Nat
  | 1, b => b.toNat
  | 2, b => b.toNat % 0x20
  | 3, b => b.toNat % 0x10
  | _, b => b.toNat % 0x08

/-- The number spelled by a lead byte and the bytes after it. -/
def spelled (lead : UInt8) (trails : Bytes) : Nat :=
  trails.foldl (fun n b => n * 64 + b.toNat % 64) (leadBits (trails.length + 1) lead)

/-- The scalar value of which `lead :: trails` is the UTF-8 form. A form that is longer than the
value needs is refused. -/
def scalar? (lead : UInt8) (trails : Bytes) : Option CodePoint :=
  if trails.all isTrail then
    (CodePoint.ofScalar? (spelled lead trails)).filter
      fun c => width c.val == trails.length + 1
  else none

/-- The glyph of a byte that could not be decoded. -/
def lost (b : UInt8) : Glyph := ⟨.replacement, [b]⟩

/-- The glyph at the front of `lead :: rest`. -/
def glyph (lead : UInt8) (rest : Bytes) : Glyph :=
  match leadWidth? lead.toNat with
  | none => lost lead
  | some w =>
    let trails := rest.take (w - 1)
    if trails.length + 1 < w then lost lead
    else match scalar? lead trails with
      | none => lost lead
      | some c => ⟨c, lead :: trails⟩

/-- The glyphs of a buffer after its first `skip` bytes. -/
def glyphsFrom : Nat → Bytes → List Glyph
  | _, [] => []
  | skip + 1, _ :: rest => glyphsFrom skip rest
  | 0, b :: rest =>
    let g := glyph b rest
    g :: glyphsFrom (g.bytes.length - 1) rest

/-- Cuts a buffer into glyphs. -/
def glyphs (buffer : Bytes) : List Glyph := glyphsFrom 0 buffer

theorem glyph_bytes (lead : UInt8) (rest : Bytes) :
    (glyph lead rest).bytes = lead :: rest.take ((glyph lead rest).bytes.length - 1) := by
  unfold glyph lost
  split
  · simp
  · dsimp only
    split
    · simp
    · split
      · simp
      · simp

theorem length_glyph_pos (lead : UInt8) (rest : Bytes) : 0 < (glyph lead rest).bytes.length := by
  rw [glyph_bytes]
  simp

theorem glyphsFrom_eq_drop (skip : Nat) (buffer : Bytes) :
    glyphsFrom skip buffer = glyphs (buffer.drop skip) := by
  induction buffer generalizing skip with
  | nil => simp [glyphs, glyphsFrom]
  | cons b rest ih =>
    cases skip with
    | zero => rfl
    | succ skip => simpa [glyphsFrom] using ih skip

@[simp] theorem glyphs_nil : glyphs [] = [] := rfl

theorem glyphs_cons (b : UInt8) (rest : Bytes) :
    glyphs (b :: rest) =
      glyph b rest :: glyphs (rest.drop ((glyph b rest).bytes.length - 1)) := by
  rw [← glyphsFrom_eq_drop]
  rfl

/-- Cutting a buffer into glyphs loses nothing. -/
theorem flatMap_bytes_glyphs (buffer : Bytes) : (glyphs buffer).flatMap Glyph.bytes = buffer := by
  induction h : buffer.length using Nat.strongRecOn generalizing buffer with
  | ind n ih =>
    cases buffer with
    | nil => rfl
    | cons b rest =>
      rw [glyphs_cons, List.flatMap_cons, ih _ _ _ rfl]
      · have hg := glyph_bytes b rest
        generalize (glyph b rest).bytes.length - 1 = k at hg ⊢
        rw [hg, List.cons_append, List.take_append_drop]
      · simp only [List.length_drop, List.length_cons] at h ⊢
        omega

/-- What is said of an offset outside the buffer. -/
def outsideMessage : Text := "index out of range"

/-- The character at an offset and the number of its bytes.

A multi-byte character is looked for in the window from `offset` to `offset` plus its width, where
each bound is read on its own: with a negative offset, a window that reaches the end of the buffer
has the upper bound zero and is empty. -/
def glyphAt (buffer : Bytes) (offset : Int) : Except Index.Error (CodePoint × Nat) :=
  match Index.get buffer offset with
  | .error e => .error e
  | .ok lead =>
    match leadWidth? lead.toNat with
    | none => .ok (.replacement, 1)
    | some 1 => .ok ((CodePoint.ofScalar? lead.toNat).getD .replacement, 1)
    | some w =>
      match Index.window buffer offset (offset + w) with
      | [] => .ok (.replacement, 1)
      | b :: trails =>
        if trails.length + 1 < w then .ok (.replacement, 1)
        else match scalar? b trails with
          | none => .ok (.replacement, 1)
          | some c => .ok (c, width c.val)

end Utf8

end SexpReader
