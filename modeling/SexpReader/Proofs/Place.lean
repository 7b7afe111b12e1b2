import Mathlib.Data.List.DropRight
import SexpReader.Proofs.Ahead

/-!
# Where parsing ends

A cursor is placed when it stands between two glyphs and its line and column are those of the
glyphs before it: a newline begins a line, and every other glyph is one column wide, however many
bytes it has. Parsing leaves a cursor placed, and a failure has the line and the column of the
place where parsing has ended.
-/

namespace SexpReader

variable {d : Dialect}

namespace Mark

theorem past_of_newline (m : Mark) (g : Glyph) :
    (m.past .newline g).line = m.line + 1 ∧ (m.past .newline g).column = 1 := ⟨rfl, rfl⟩

theorem past_of_ne_newline (m : Mark) {k : CharClass} (hk : k ≠ .newline) (g : Glyph) :
    (m.past k g).line = m.line ∧ (m.past k g).column = m.column + 1 := by
  unfold past
  rw [if_neg hk]
  exact ⟨rfl, rfl⟩

/-- Lines are counted by newlines. -/
theorem line_after (m : Mark) (gs : List Glyph) :
    (m.after d gs).line = m.line + (gs.countP fun g => g.char = d.newline : Nat) := by
  induction gs using List.reverseRecOn with
  | nil => exact (Int.add_zero m.line).symm
  | append_singleton gs g ih =>
      rw [after_concat, List.countP_append, List.countP_singleton]
      by_cases hg : g.char = d.newline
      · rw [Dialect.classify_eq_newline_iff.2 hg, (past_of_newline _ g).1, ih]
        simp [hg, Int.add_assoc]
      · have hk : d.classify g.char ≠ .newline := fun h => hg (Dialect.classify_eq_newline_iff.1 h)
        rw [(past_of_ne_newline _ hk g).1, ih]
        simp [hg]

/-- Columns are counted from the last newline, or from the start if there is none. -/
theorem column_after (m : Mark) (gs : List Glyph) :
    (m.after d gs).column = (if ∃ g ∈ gs, g.char = d.newline then 1 else m.column) +
      (gs.rtakeWhile fun g => g.char ≠ d.newline).length := by
  induction gs using List.reverseRecOn with
  | nil => simp [after]
  | append_singleton gs g ih =>
      rw [after_concat]
      by_cases hg : g.char = d.newline
      · rw [Dialect.classify_eq_newline_iff.2 hg, (past_of_newline _ g).2,
          List.rtakeWhile_concat_neg _ _ _ (by simpa using hg)]
        simp [hg]
      · have hk : d.classify g.char ≠ .newline := fun h => hg (Dialect.classify_eq_newline_iff.1 h)
        rw [(past_of_ne_newline _ hk g).2, ih,
          List.rtakeWhile_concat_pos _ _ _ (by simpa using hg)]
        simp [hg, Int.add_assoc]

end Mark

/-- The cursor stands between two glyphs, and its line and column are those of the glyphs before
it. -/
structure Cursor.IsPlaced (d : Dialect) (c : Cursor) : Prop where
  boundary : Utf8.IsBoundary c.buffer c.mark.position
  line : c.mark.line =
    1 + ((Utf8.glyphs (c.buffer.take c.mark.position)).countP fun g => g.char = d.newline : Nat)
  column : c.mark.column =
    1 + ((Utf8.glyphs (c.buffer.take c.mark.position)).rtakeWhile
      fun g => g.char ≠ d.newline).length

theorem Mark.position_origin_after (gs : List Glyph) :
    (Mark.origin.after d gs).position = (gs.flatMap Glyph.bytes).length := by
  rw [position_after]
  exact Nat.zero_add _

/-- The bytes before a place have the glyphs before it. -/
theorem Utf8.glyphs_take_after {b : Bytes} {before after : List Glyph}
    (h : glyphs b = before ++ after) :
    glyphs (b.take (Mark.origin.after d before).position) = before := by
  rw [Mark.position_origin_after, take_of_glyphs_eq h, (glyphs_eq_append h).1]

theorem Cursor.isPlaced_after {b : Bytes} {before after : List Glyph}
    (h : Utf8.glyphs b = before ++ after) :
    Cursor.IsPlaced d ⟨b, Mark.origin.after d before⟩ := by
  have htake : Utf8.glyphs (b.take (Mark.origin.after d before).position) = before :=
    Utf8.glyphs_take_after h
  refine ⟨?_, ?_, ?_⟩
  · dsimp only
    rw [Mark.position_origin_after]
    exact Utf8.isBoundary_of_glyphs_eq h
  · dsimp only
    rw [htake, Mark.line_after]
    rfl
  · dsimp only
    rw [htake, Mark.column_after]
    simp only [Mark.origin, ite_self]

/-- The end of a source is where all of its glyphs lie behind. -/
theorem Mark.position_after_glyphs (b : Bytes) :
    (Mark.origin.after d (Utf8.glyphs b)).position = b.length := by
  rw [position_origin_after, Utf8.flatMap_bytes_glyphs]

/-- A failure at the end of the input has the place of the reader. -/
theorem Reader.verdict_place (r : Reader) {f : Failure} (h : r.verdict d = .error f) :
    f.cause = .endOfInput ∧ f.line = r.mark.line ∧ f.column = r.mark.column := by
  unfold verdict at h
  split at h
  · cases h
  · cases h
    exact ⟨rfl, rfl, rfl⟩
  · cases h
    exact ⟨rfl, rfl, rfl⟩

/-- After some of the glyphs, the others are ahead. -/
theorem Cursor.faces_after {b : Bytes} {before after : List Glyph}
    (h : Utf8.glyphs b = before ++ after) (d : Dialect) :
    Cursor.Faces ⟨b, Mark.origin.after d before⟩ after := by
  have horigin : (Cursor.ofBytes b).Faces (before ++ after) := ⟨Nat.zero_le _, h⟩
  exact horigin.after

/-- Parsing ends between two glyphs, with the line and the column of that place, and a failure has
the same line and column. It is the end of the source, unless the failure names a character that
was not expected; then that character stands at the place. -/
theorem parse_ends_placed (d : Dialect) (tracing : Bool) (b : Bytes) :
    let p := (Cursor.ofBytes b).parse d tracing
    p.cursor.buffer = b ∧ p.cursor.IsPlaced d ∧
      match p.outcome with
      | .ok _ => p.cursor.mark.position = b.length
      | .error f =>
        f.line = p.cursor.mark.line ∧ f.column = p.cursor.mark.column ∧
          match f.cause with
          | .endOfInput => p.cursor.mark.position = b.length
          | .unexpected found =>
            p.cursor.mark.position < b.length ∧
              p.cursor.get (.kind .char) = .ok (.text found) ∧
              (b.length ≤ Index.limit → ∃ c w, found = [c] ∧
                Utf8.glyphAt b p.cursor.mark.position = .ok (c, w)) := by
  intro p
  have hp : p = ⟨(Reader.readGlyphs d tracing .origin (Utf8.glyphs b)).whole,
      ⟨b, (Reader.readGlyphs d tracing .origin (Utf8.glyphs b)).mark⟩,
      (Reader.readGlyphs d tracing .origin (Utf8.glyphs b)).events⟩ := rfl
  rw [hp]
  refine ⟨rfl, ?_⟩
  rcases Reader.readGlyphs_cases d tracing .origin (Utf8.glyphs b) with
    hlive | ⟨before, g, after, hgs, hlive, hstop⟩
  · obtain ⟨hmark, hwhole⟩ := Reader.readGlyphs_of_isLive hlive
    rw [hmark, hwhole]
    refine ⟨Cursor.isPlaced_after (List.append_nil _).symm, ?_⟩
    cases hv : (Reader.run d tracing .origin (Utf8.glyphs b)).verdict d with
    | ok n => exact Mark.position_after_glyphs b
    | error f =>
        obtain ⟨hcause, hline, hcolumn⟩ := Reader.verdict_place _ hv
        rw [Reader.mark_run hlive] at hline hcolumn
        dsimp only
        rw [hcause]
        exact ⟨hline, hcolumn, Mark.position_after_glyphs b⟩
  · obtain ⟨hmark, hwhole⟩ := Reader.readGlyphs_of_stop hlive hstop after
    have hfaces := Cursor.faces_after hgs d
    have hget :
        Cursor.get ⟨b, Mark.origin.after d before⟩ (.kind .char) = .ok (.text [g.char]) := by
      rw [Cursor.get, hfaces.look]
      rfl
    rw [hgs, hmark, hwhole]
    exact ⟨Cursor.isPlaced_after hgs, rfl, rfl, hfaces.lt, hget,
      fun hlen => ⟨g.char, g.bytes.length, rfl, hfaces.glyphAt hlen⟩⟩

end SexpReader
