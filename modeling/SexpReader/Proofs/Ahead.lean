import SexpReader.Cursor.Read
import SexpReader.Proofs.Boundary
import SexpReader.Proofs.Run

/-!
# What lies ahead of a cursor

A cursor faces the glyphs that lie between it and the end of its buffer. They tell what every
operation with characters does: a cursor that faces nothing is at the end, and one that faces
`g :: gs` reads `g` and faces `gs` behind it.
-/

namespace SexpReader

theorem Mark.position_after (m : Mark) (d : Dialect) (gs : List Glyph) :
    (m.after d gs).position = m.position + (gs.flatMap Glyph.bytes).length := by
  induction gs using List.reverseRecOn with
  | nil => rfl
  | append_singleton gs g ih =>
      rw [after_concat, position_past, ih]
      simp [Nat.add_assoc]

namespace Cursor

variable {d : Dialect} {c : Cursor} {g : Glyph} {gs : List Glyph}

/-- Bytes that lie ahead end within the buffer. -/
theorem position_add_le_of_rest (hc : c.mark.position ≤ c.size) {bs more : Bytes}
    (hrest : c.rest = bs ++ more) : c.mark.position + bs.length ≤ c.size := by
  have hlen := congrArg List.length hrest
  rw [rest, List.length_drop, List.length_append] at hlen
  unfold size at hc ⊢
  omega

/-- The character at the cursor. -/
def char (c : Cursor) : Except Error CodePoint :=
  match c.glyph? with
  | none => .error (.boundary c.mark.position 1 c.size)
  | some g => .ok g.char

theorem get_char (c : Cursor) : c.get (.kind .char) = c.char.map fun x => .text [x] := by
  unfold get look lookKind lookChar char
  cases c.glyph? <;> rfl

/-- The glyphs ahead of a cursor that is not past the end of its buffer. -/
structure Faces (c : Cursor) (gs : List Glyph) : Prop where
  bound : c.mark.position ≤ c.size
  glyphs : Utf8.glyphs c.rest = gs

/-- The cursor behind a glyph of class `k`. -/
def past (c : Cursor) (k : CharClass) (g : Glyph) : Cursor := { c with mark := c.mark.past k g }

/-- The cursor behind some glyphs. -/
def after (d : Dialect) (c : Cursor) (gs : List Glyph) : Cursor :=
  { c with mark := c.mark.after d gs }

theorem after_nil (d : Dialect) (c : Cursor) : c.after d [] = c := rfl

theorem after_cons (d : Dialect) (c : Cursor) (g : Glyph) (gs : List Glyph) :
    c.after d (g :: gs) = (c.past (d.classify g.char) g).after d gs := rfl

theorem Faces.isEmpty_nil (h : c.Faces []) : c.isEmpty = true := by
  have hrest : c.rest = [] := by
    rw [← Utf8.flatMap_bytes_glyphs c.rest, h.glyphs]
    rfl
  have hlen := List.drop_eq_nil_iff.1 hrest
  have hbound := h.bound
  rw [isEmpty, beq_iff_eq]
  exact Nat.le_antisymm hbound hlen

/-- There is a first byte, and the first glyph is the one it begins. -/
theorem Faces.exists_lead (h : c.Faces (g :: gs)) :
    ∃ lead rest, c.rest = lead :: rest ∧ Utf8.glyph lead rest = g ∧
      Utf8.glyphs (rest.drop (g.bytes.length - 1)) = gs := by
  cases hrest : c.rest with
  | nil =>
      have hglyphs := h.glyphs
      rw [hrest] at hglyphs
      cases hglyphs
  | cons lead rest =>
      have hglyphs := h.glyphs
      rw [hrest, Utf8.glyphs_cons, List.cons.injEq] at hglyphs
      obtain ⟨hg, hgs⟩ := hglyphs
      rw [hg] at hgs
      exact ⟨lead, rest, rfl, hg, hgs⟩

theorem Faces.glyph? (h : c.Faces (g :: gs)) : c.glyph? = some g := by
  obtain ⟨lead, rest, hrest, hg, -⟩ := h.exists_lead
  rw [Cursor.glyph?, hrest]
  exact congrArg some hg

theorem Faces.lt (h : c.Faces (g :: gs)) : c.mark.position < c.size := by
  obtain ⟨lead, rest, hrest, -, -⟩ := h.exists_lead
  have hlen := congrArg List.length hrest
  rw [Cursor.rest, List.length_drop, List.length_cons] at hlen
  exact Nat.lt_of_sub_eq_succ hlen

theorem Faces.isEmpty_cons (h : c.Faces (g :: gs)) : c.isEmpty = false := by
  rw [isEmpty, beq_eq_false_iff_ne]
  exact Nat.ne_of_lt h.lt

theorem Faces.char (h : c.Faces (g :: gs)) : c.char = .ok g.char := by
  rw [Cursor.char, h.glyph?]

theorem Faces.look (h : c.Faces (g :: gs)) :
    c.look (.kind .char) = .ok ⟨.text [g.char], g.bytes.length, 1⟩ := by
  unfold Cursor.look lookKind lookChar
  rw [h.glyph?]

theorem Faces.take (h : c.Faces (g :: gs)) :
    c.take (.kind .char) = .ok (.text [g.char], c.moved g.bytes.length 1) := by
  rw [Cursor.take, h.look]
  rfl

theorem Faces.accept (h : c.Faces (g :: gs)) (x : CodePoint) :
    c.accept (.kind .char) (.text [x]) =
      .ok (if g.char = x then (true, c.moved g.bytes.length 1) else (false, c)) := by
  have hagrees : (Value.text [g.char]).agrees (.text [x]) = true ↔ g.char = x := by
    simp [Value.agrees]
  rw [Cursor.accept, h.look]
  change (if (Value.text [g.char]).agrees (.text [x]) = true then _ else _) = _
  simp only [hagrees]
  split <;> rfl

/-- A character that is read by its offset is the same. -/
theorem Faces.glyphAt (h : c.Faces (g :: gs)) (hlen : c.size ≤ Index.limit) :
    Utf8.glyphAt c.buffer c.mark.position = .ok (g.char, g.bytes.length) :=
  Utf8.glyphAt_of_glyphs_drop hlen h.glyphs

/-- Moving past the first glyph leaves the others ahead. -/
theorem Faces.past (h : c.Faces (g :: gs)) (k : CharClass) : (c.past k g).Faces gs := by
  obtain ⟨lead, rest, hrest, hg, hgs⟩ := h.exists_lead
  have hbytes := Utf8.glyph_bytes_append_drop lead rest
  rw [hg, ← hrest] at hbytes
  have hpos : (c.past k g).mark.position = c.mark.position + g.bytes.length :=
    Mark.position_past c.mark k g
  refine ⟨?_, ?_⟩
  · rw [hpos]
    exact position_add_le_of_rest h.bound hbytes.symm
  · have hdrop : (c.past k g).rest = c.rest.drop g.bytes.length := by
      rw [Cursor.rest, hpos, Cursor.rest, List.drop_drop]
      rfl
    rw [hdrop, ← hbytes, List.drop_left, hgs]

/-- A newline begins a line, and another glyph is one more column. -/
theorem past_classify (d : Dialect) (c : Cursor) (g : Glyph) :
    c.past (d.classify g.char) g =
      if g.char = d.newline then (c.moved g.bytes.length 1).advanceLine
      else c.moved g.bytes.length 1 := by
  unfold past Mark.past
  simp only [Dialect.classify_eq_newline_iff]
  split <;> rfl

theorem past_of_ne_newline (c : Cursor) {k : CharClass} (hk : k ≠ .newline) (g : Glyph) :
    c.past k g = c.moved g.bytes.length 1 := by
  unfold past Mark.past
  rw [if_neg hk]
  rfl

theorem Faces.after {before : List Glyph} (h : c.Faces (before ++ gs)) :
    (c.after d before).Faces gs := by
  induction before generalizing c with
  | nil => exact h
  | cons g before ih =>
      rw [after_cons]
      exact ih (h.past _)

theorem position_after (d : Dialect) (c : Cursor) (gs : List Glyph) :
    (c.after d gs).mark.position = c.mark.position + (gs.flatMap Glyph.bytes).length :=
  Mark.position_after c.mark d gs

/-- Glyphs are not empty. -/
theorem Faces.lt_position_after {before : List Glyph} (h : c.Faces (before ++ gs))
    (hne : before ≠ []) : c.mark.position < (c.after d before).mark.position := by
  obtain ⟨g, before, rfl⟩ := List.exists_cons_of_ne_nil hne
  obtain ⟨lead, rest, -, hg, -⟩ := Faces.exists_lead h
  have hpos := Utf8.length_glyph_pos lead rest
  rw [hg] at hpos
  rw [position_after, List.flatMap_cons, List.length_append]
  omega

/-- The bytes between two places are those of the glyphs between them. -/
theorem Faces.window {before : List Glyph} (h : c.Faces (before ++ gs)) (d : Dialect) :
    Index.window c.buffer c.mark.position (c.after d before).mark.position =
      before.flatMap Glyph.bytes := by
  have hbytes : c.buffer.drop c.mark.position =
      before.flatMap Glyph.bytes ++ gs.flatMap Glyph.bytes := by
    rw [← List.flatMap_append, ← h.glyphs, Utf8.flatMap_bytes_glyphs]
    rfl
  rw [position_after, Int.natCast_add, Index.window_natCast, hbytes, List.take_left]

end Cursor

end SexpReader
