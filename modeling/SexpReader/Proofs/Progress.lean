import SexpReader.Proofs.Agreement

/-!
# Reading goes forward

One cursor precedes another if they share a buffer and the second stands no earlier, but still
inside the buffer. Every call of the descent comes to an end at a cursor that its own precedes,
whatever the bytes ahead are. A call that finds an expression has moved past at least one byte, so
what remains after the elements of a list gets smaller with each of them, and that is why reading
them comes to an end. A call that finds none has come to the end of the input, or to a closing
bracket, in front of which it stays.

The machine goes forward glyph by glyph. Where a call for an expression ends is where the machine
ends, so this need not be followed through the calls again.
-/

namespace SexpReader

namespace Cursor

/-- The cursors share a buffer, and the second stands no earlier in it. -/
structure Precedes (c c' : Cursor) : Prop where
  buffer : c'.buffer = c.buffer
  le : c.mark.position ≤ c'.mark.position
  bound : c'.mark.position ≤ c'.size

variable {d : Dialect} {c c₁ c₂ : Cursor} {before gs : List Glyph}

theorem Precedes.refl (hc : c.mark.position ≤ c.size) : c.Precedes c :=
  ⟨rfl, Nat.le_refl _, hc⟩

theorem Precedes.trans (h : c.Precedes c₁) (h' : c₁.Precedes c₂) : c.Precedes c₂ :=
  ⟨h'.buffer.trans h.buffer, h.le.trans h'.le, h'.bound⟩

theorem Precedes.size (h : c.Precedes c₁) : c₁.size = c.size :=
  congrArg List.length h.buffer

theorem Faces.precedes_after (h : c.Faces (before ++ gs)) : c.Precedes (c.after d before) := by
  refine ⟨rfl, ?_, h.after.bound⟩
  rw [position_after]
  exact Nat.le_add_right _ _

theorem Faces.precedes_past {g : Glyph} (h : c.Faces (g :: gs)) (k : CharClass) :
    c.Precedes (c.past k g) := by
  refine ⟨rfl, ?_, (h.past k).bound⟩
  rw [Cursor.past, Mark.position_past]
  exact Nat.le_add_right _ _

end Cursor

/-! ## The machine -/

namespace Reader

variable {d : Dialect} {tracing : Bool} {m : Mark} {gs : List Glyph}

/-- Whatever a reader has come to, it has moved over some of the glyphs. -/
theorem exists_mark_run (d : Dialect) (tracing : Bool) (m : Mark) (gs : List Glyph) :
    ∃ before after, gs = before ++ after ∧ (run d tracing m gs).mark = m.after d before := by
  rcases readGlyphs_cases d tracing m gs with hlive | ⟨before, g, after, rfl, hlive, hstop⟩
  · exact ⟨gs, [], (List.append_nil gs).symm, mark_run hlive⟩
  · refine ⟨before, g :: after, rfl, ?_⟩
    rw [run_of_stop hstop after, (step_of_not_isLive hlive hstop).1, mark_run hlive]

theorem mark_readGlyphs (d : Dialect) (tracing : Bool) (m : Mark) (gs : List Glyph) :
    (readGlyphs d tracing m gs).mark = (run d tracing m gs).mark := by
  change ((run d tracing m gs).finish d tracing).mark = _
  by_cases hlive : (run d tracing m gs).phase.IsLive
  · exact (finish_of_isLive hlive).1
  · obtain ⟨outcome, next, hphase⟩ := not_isLive_iff.1 hlive
    rw [finish, hphase]

/-- No step goes back. -/
theorem position_le_step (d : Dialect) (tracing : Bool) (r : Reader) (g : Glyph) :
    r.mark.position ≤ (r.step d tracing g).mark.position := by
  by_cases hlive : r.phase.IsLive
  · obtain ⟨m, fs, ph, events, hr', hmove⟩ := exists_move d tracing hlive g
    rw [hr']
    cases hmove with
    | stray | surplus => exact Nat.le_refl _
    | _ =>
        dsimp only
        rw [Mark.position_past]
        exact Nat.le_add_right _ _
  · obtain ⟨outcome, next, hp⟩ := not_isLive_iff.1 hlive
    exact Nat.le_of_eq (by rw [step_of_stopped hp])

theorem position_le_run_append (d : Dialect) (tracing : Bool) (m : Mark) (gs hs : List Glyph) :
    (run d tracing m gs).mark.position ≤ (run d tracing m (gs ++ hs)).mark.position := by
  induction hs using List.reverseRecOn with
  | nil => rw [List.append_nil]
  | append_singleton hs g ih =>
      rw [← List.append_assoc, run_concat]
      exact ih.trans (position_le_step d tracing _ g)

end Reader

/-! ## The calls -/

namespace Cursor

open Reader

variable {d : Dialect} {c : Cursor}

/-- After some of the glyphs ahead, a reader stands where a cursor may stand. -/
theorem precedes_run (tracing : Bool) (hc : c.mark.position ≤ c.size) {gs hs : List Glyph}
    (h : Utf8.glyphs c.rest = gs ++ hs) :
    c.Precedes ⟨c.buffer, (run d tracing c.mark gs).mark⟩ := by
  obtain ⟨before, after, rfl, hmark⟩ := exists_mark_run d tracing c.mark gs
  have hfaces : c.Faces (before ++ (after ++ hs)) := ⟨hc, by rw [h, List.append_assoc]⟩
  rw [hmark]
  exact hfaces.precedes_after

theorem precedes_parse (d : Dialect) (tracing : Bool) (hc : c.mark.position ≤ c.size) :
    c.Precedes (c.parse d tracing).cursor := by
  have h : c.Precedes ⟨c.buffer, (run d tracing c.mark (Utf8.glyphs c.rest)).mark⟩ :=
    precedes_run tracing hc (List.append_nil _).symm
  rw [← mark_readGlyphs] at h
  exact h

/-- A call for an expression ends where the machine ends. -/
theorem ExpressionEnd.mark_eq {b : Bytes} {m m' : Mark} {gs : List Glyph} {outcome : Outcome}
    {events : List Event} (h : ExpressionEnd d b m gs outcome m' events) :
    (readGlyphs d true m gs).mark = m' := by
  change (resume d ⟨m, [], .seeking, []⟩ gs).mark = m'
  cases h with
  | missing hfaces hresume => rw [hresume]
  | closing hfaces hg hle hresume => rw [hresume, resume_stray hg]
  | @found node _ events rest hfaces hlt hhead hresume =>
      rw [hresume]
      cases rest with
      | nil => rw [resume_complete_nil]
      | cons g rest => rw [resume_surplus (hhead g rfl)]

theorem skipBlanks_precedes (d : Dialect) (hc : c.mark.position ≤ c.size) :
    ∃ c', c.skipBlanks d = pure c' ∧ c.Precedes c' := by
  have hfaces : c.Faces ((Utf8.glyphs c.rest).takeWhile d.isBlank ++
      (Utf8.glyphs c.rest).dropWhile d.isBlank) := ⟨hc, List.takeWhile_append_dropWhile.symm⟩
  exact ⟨_, skipBlanks_eq ⟨hc, rfl⟩, hfaces.precedes_after⟩

theorem skipConstituents_precedes (d : Dialect) (hc : c.mark.position ≤ c.size) :
    ∃ c', c.skipConstituents d = pure c' ∧ c.Precedes c' := by
  have hfaces : c.Faces ((Utf8.glyphs c.rest).takeWhile d.isConstituent ++
      (Utf8.glyphs c.rest).dropWhile d.isConstituent) := ⟨hc, List.takeWhile_append_dropWhile.symm⟩
  exact ⟨_, skipConstituents_eq ⟨hc, rfl⟩, hfaces.precedes_after⟩

theorem atom_precedes (d : Dialect) (hc : c.mark.position ≤ c.size) :
    ∃ outcome c', c.atom d = pure (outcome, c') ∧ c.Precedes c' := by
  obtain ⟨c', hcall, hc'⟩ := skipConstituents_precedes d hc
  rw [atom, hcall, pure_bind]
  split
  · exact ⟨_, c', rfl, hc'⟩
  · exact ⟨_, c', rfl, hc'⟩

/-- Where a call for an expression ends tells whether there is one. -/
theorem expression_precedes (d : Dialect) (hc : c.mark.position ≤ c.size) :
    ∃ outcome c' events, c.expression d = pure (outcome, c', events) ∧ c.Precedes c' ∧
      match outcome with
      | .ok _ => c.mark.position < c'.mark.position
      | .error _ => c'.isEmpty = true ∨ c'.get (.kind .char) = .ok (.text [d.closing]) := by
  obtain ⟨outcome, m', events, hcall, hend⟩ :=
    expression_ends d c.buffer _ c.mark _ ⟨hc, rfl⟩ (Nat.le_refl _)
  change c.expression d = _ at hcall
  have hm' : (readGlyphs d true c.mark (Utf8.glyphs c.rest)).mark = m' := hend.mark_eq
  obtain ⟨before, after, hsplit, hmark⟩ := exists_mark_run d true c.mark (Utf8.glyphs c.rest)
  rw [← mark_readGlyphs, hm'] at hmark
  have hfaces : c.Faces (before ++ after) := ⟨hc, hsplit⟩
  have hthere : (⟨c.buffer, m'⟩ : Cursor) = c.after d before := by rw [hmark]; rfl
  refine ⟨outcome, _, events, hcall, by rw [hthere]; exact hfaces.precedes_after, ?_⟩
  cases hend with
  | found hfaces' hlt =>
      have hrest := hfaces'.glyphs
      rw [hthere, hfaces.after.glyphs] at hrest
      rw [hthere]
      refine hfaces.lt_position_after ?_
      rintro rfl
      rw [hsplit, List.nil_append, hrest] at hlt
      exact Nat.lt_irrefl _ hlt
  | missing hfaces' => exact .inl hfaces'.isEmpty_nil
  | closing hfaces' hg =>
      refine .inr ?_
      rw [get_char, hfaces'.char, Dialect.eq_closing_of_classify hg]
      rfl

/-- The elements of a list come to an end, since each of them takes some of what remains. -/
theorem elements_precedes (d : Dialect) (hc : c.mark.position ≤ c.size) :
    ∃ nodes c' events, c.elements d = pure (nodes, c', events) ∧ c.Precedes c' := by
  induction hrem : c.remaining using Nat.strongRecOn generalizing c with
  | ind n ih =>
      obtain ⟨c₁, hskip, hc₁⟩ := skipBlanks_precedes d hc
      obtain ⟨outcome, c₂, events, hcall, hc₂, hend⟩ := expression_precedes d hc₁.bound
      rw [elements, hskip, pure_bind, hcall, pure_bind]
      cases outcome with
      | error f => exact ⟨[], c₂, _, rfl, hc₁.trans hc₂⟩
      | ok node =>
          have hlt : c₂.remaining < n := by
            have hsize := (hc₁.trans hc₂).size
            have hle := hc₁.le
            have hbound := hc₂.bound
            change c₁.mark.position < c₂.mark.position at hend
            unfold remaining at hrem ⊢
            omega
          obtain ⟨nodes, c₃, events', hmore, hc₃⟩ := ih _ hlt hc₂.bound rfl
          refine ⟨node :: nodes, c₃, events ++ events', ?_, (hc₁.trans hc₂).trans hc₃⟩
          dsimp only
          rw [hmore]
          rfl

theorem list_precedes (d : Dialect) (start : Nat) (hc : c.mark.position ≤ c.size) :
    ∃ outcome c' events, c.list d start = pure (outcome, c', events) ∧ c.Precedes c' := by
  obtain ⟨c₁, hskip, hc₁⟩ := skipBlanks_precedes d hc
  obtain ⟨nodes, c₂, events, hcall, hc₂⟩ := elements_precedes d hc₁.bound
  have hfaces : c₂.Faces (Utf8.glyphs c₂.rest) := ⟨hc₂.bound, rfl⟩
  rw [list, hskip, pure_bind, hcall, pure_bind]
  dsimp only
  cases hgs : Utf8.glyphs c₂.rest with
  | nil =>
      rw [hgs] at hfaces
      rw [hfaces.isEmpty_nil]
      exact ⟨_, c₂, events, rfl, hc₁.trans hc₂⟩
  | cons g gs =>
      rw [hgs] at hfaces
      rw [hfaces.isEmpty_cons, hfaces.char, hfaces.accept]
      by_cases hg : g.char = d.closing
      · rw [if_pos hg]
        have hc₃ := hfaces.precedes_past .closing
        rw [past_of_ne_newline c₂ (by decide)] at hc₃
        exact ⟨_, _, events, rfl, (hc₁.trans hc₂).trans hc₃⟩
      · rw [if_neg hg]
        exact ⟨_, c₂, events, rfl, hc₁.trans hc₂⟩

/-- Reading by descent always comes to an end and is never refused by the cursor, wherever in its
buffer the cursor stands; and this holds of every call on the way. Each call leaves the buffer as
it is and ends no earlier than it begins, inside the buffer. The machine that takes the glyphs one
by one has the same outcome, and goes forward in the same way with every one of them. -/
theorem calls_end_within_buffer (d : Dialect) {c : Cursor} (hc : c.mark.position ≤ c.size) :
    (∃ c', c.skipBlanks d = pure c' ∧ c.Precedes c') ∧
    (∃ outcome c', c.atom d = pure (outcome, c') ∧ c.Precedes c') ∧
    (∀ start, ∃ outcome c' events, c.list d start = pure (outcome, c', events) ∧
      c.Precedes c') ∧
    (∃ nodes c' events, c.elements d = pure (nodes, c', events) ∧ c.Precedes c') ∧
    (∃ outcome c' events, c.expression d = pure (outcome, c', events) ∧ c.Precedes c' ∧
      match outcome with
      | .ok _ => c.mark.position < c'.mark.position
      | .error _ => c'.isEmpty = true ∨ c'.get (.kind .char) = .ok (.text [d.closing])) ∧
    (∃ p, c.descend d = pure p ∧ c.Precedes p.cursor ∧
      ∀ tracing, (c.parse d tracing).outcome = p.outcome ∧
        (c.parse d tracing).cursor = p.cursor) ∧
    ∀ tracing gs hs, gs ++ hs <+: Utf8.glyphs c.rest →
      (run d tracing c.mark gs).mark.position ≤ (run d tracing c.mark (gs ++ hs)).mark.position ∧
        c.Precedes ⟨c.buffer, (run d tracing c.mark (gs ++ hs)).mark⟩ := by
  refine ⟨skipBlanks_precedes d hc, atom_precedes d hc, fun start => list_precedes d start hc,
    elements_precedes d hc, expression_precedes d hc,
    ⟨_, descend_eq d hc, precedes_parse d true hc, ?_⟩, ?_⟩
  · intro tracing
    cases tracing with
    | true => exact ⟨rfl, rfl⟩
    | false =>
        rw [parse_quiet]
        exact ⟨rfl, rfl⟩
  · rintro tracing gs hs ⟨rest, hrest⟩
    exact ⟨position_le_run_append d tracing c.mark gs hs, precedes_run tracing hc hrest.symm⟩

/-- A cursor inside a character that breaks off, and in front of the origin. What is left of the
character is an atom, and nothing is refused. -/
theorem calls_end_at_stray_bracket :
    let c : Cursor := ⟨[0x28, 0xE2, 0x82, 0x29], ⟨2, -3, 0⟩⟩
    c.mark.position ≤ c.size ∧ ∃ p, c.descend .standard = pure p ∧ c.Precedes p.cursor ∧
      p.outcome = .error ⟨.unexpected ")", "end of input", -3, 1⟩ := by
  intro c
  have hc : c.mark.position ≤ c.size := by decide
  obtain ⟨p, hcall, hp, hparse⟩ := (calls_end_within_buffer .standard hc).2.2.2.2.2.1
  exact ⟨hc, p, hcall, hp, (hparse false).1.symm⟩

end Cursor

end SexpReader
