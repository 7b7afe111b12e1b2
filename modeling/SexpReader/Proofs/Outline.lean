import SexpReader.Proofs.Run

/-!
# The outline of a reading

How a reading goes depends on the classes of the glyphs alone. The outline of a reader is its phase
without the contents, together with the number of open lists; it takes classes one after the other
just as the reader takes glyphs, and where it stands at the end tells whether parsing succeeds and
what is missing if not.

Outlines are easy to compute with: blanks hardly matter, and as long as no closing bracket meets
the last open list, the depth is the number of opening brackets less the number of closing ones.
-/

namespace SexpReader

/-- What a reader is doing, and the number of lists open. -/
inductive Outline where
  | seeking (depth : Nat)
  | inAtom (depth : Nat)
  | complete (depth : Nat)
  | stopped
deriving DecidableEq

namespace Outline

/-- One glyph of a given class. -/
def step : Outline → CharClass → Outline
  | .stopped, _ => .stopped
  | .seeking n, .newline | .seeking n, .blank => .seeking n
  | .inAtom n, .newline | .inAtom n, .blank => .complete n
  | .complete n, .newline | .complete n, .blank => .complete n
  | .seeking n, .opening => .seeking (n + 1)
  | .inAtom 0, .opening | .complete 0, .opening => .stopped
  | .inAtom (n + 1), .opening | .complete (n + 1), .opening => .seeking (n + 2)
  | .seeking 0, .closing | .inAtom 0, .closing | .complete 0, .closing => .stopped
  | .seeking (n + 1), .closing | .inAtom (n + 1), .closing | .complete (n + 1), .closing =>
    .complete n
  | .seeking n, .constituent | .inAtom n, .constituent => .inAtom n
  | .complete 0, .constituent => .stopped
  | .complete (n + 1), .constituent => .inAtom (n + 1)

/-- The outline after glyphs. -/
def after (d : Dialect) (o : Outline) (gs : List Glyph) : Outline :=
  gs.foldl (fun o g => o.step (d.classify g.char)) o

/-- The number of open lists, unless the reader has stopped. -/
def depth? : Outline → Option Nat
  | .seeking n | .inAtom n | .complete n => some n
  | .stopped => none

/-- The outline of a reader that holds an expression and has no list open. -/
def IsDone (o : Outline) : Prop := o = .inAtom 0 ∨ o = .complete 0

@[simp] theorem after_nil (d : Dialect) (o : Outline) : o.after d [] = o := rfl

theorem after_cons (d : Dialect) (o : Outline) (g : Glyph) (gs : List Glyph) :
    o.after d (g :: gs) = (o.step (d.classify g.char)).after d gs := rfl

theorem after_append (d : Dialect) (o : Outline) (gs hs : List Glyph) :
    o.after d (gs ++ hs) = (o.after d gs).after d hs :=
  List.foldl_append

theorem after_concat (d : Dialect) (o : Outline) (gs : List Glyph) (g : Glyph) :
    o.after d (gs ++ [g]) = (o.after d gs).step (d.classify g.char) :=
  after_append d o gs [g]

/-- Blanks end an atom, and they change nothing else. -/
theorem seeking_step_of_isBlank {k : CharClass} (hk : k.isBlank = true) (n : Nat) :
    (seeking n).step k = .seeking n := by
  rcases CharClass.isBlank_iff.1 hk with rfl | rfl <;> rfl

theorem complete_step_of_isBlank {k : CharClass} (hk : k.isBlank = true) (n : Nat) :
    (complete n).step k = .complete n := by
  rcases CharClass.isBlank_iff.1 hk with rfl | rfl <;> rfl

theorem inAtom_step_of_isBlank {k : CharClass} (hk : k.isBlank = true) (n : Nat) :
    (inAtom n).step k = .complete n := by
  rcases CharClass.isBlank_iff.1 hk with rfl | rfl <;> rfl

/-- Where a reader may stand at the end of a source. -/
theorem four_cases (o : Outline) :
    o = .stopped ∨ o.IsDone ∨ o = .seeking 0 ∨ ∃ n, o.depth? = some (n + 1) := by
  cases o with
  | stopped => exact Or.inl rfl
  | seeking n =>
      cases n with
      | zero => exact Or.inr (Or.inr (Or.inl rfl))
      | succ n => exact Or.inr (Or.inr (Or.inr ⟨n, rfl⟩))
  | inAtom n =>
      cases n with
      | zero => exact Or.inr (Or.inl (Or.inl rfl))
      | succ n => exact Or.inr (Or.inr (Or.inr ⟨n, rfl⟩))
  | complete n =>
      cases n with
      | zero => exact Or.inr (Or.inl (Or.inr rfl))
      | succ n => exact Or.inr (Or.inr (Or.inr ⟨n, rfl⟩))

end Outline

namespace Reader

variable {d : Dialect} {tracing : Bool}

/-- The outline of a reader. -/
def outline (r : Reader) : Outline :=
  match r.phase with
  | .seeking => .seeking r.frames.length
  | .inAtom .. => .inAtom r.frames.length
  | .complete _ => .complete r.frames.length
  | .stopped .. => .stopped

theorem outline_eq_stopped_iff {r : Reader} : r.outline = .stopped ↔ ¬ r.phase.IsLive := by
  unfold outline
  cases r.phase <;> simp [Phase.IsLive]

theorem outline_of_held {r : Reader} {node : Node} (hn : r.held? = some node) :
    (∃ start run, r.phase = .inAtom start run ∧ r.outline = .inAtom r.frames.length) ∨
      r.outline = .complete r.frames.length := by
  unfold held? at hn
  unfold outline
  cases hp : r.phase with
  | seeking => rw [hp] at hn; cases hn
  | stopped outcome next => rw [hp] at hn; cases hn
  | complete n => exact Or.inr rfl
  | inAtom start run => exact Or.inl ⟨start, run, rfl, rfl⟩

theorem outline_of_not_held {r : Reader} (hlive : r.phase.IsLive) (hn : r.held? = none) :
    r.outline = .seeking r.frames.length := by
  unfold held? at hn
  unfold outline
  cases hp : r.phase with
  | seeking => rfl
  | stopped outcome next => rw [hp] at hlive; exact hlive.elim
  | complete node => rw [hp] at hn; cases hn
  | inAtom start run => rw [hp] at hn; cases hn

theorem outline_of_room {r : Reader} {fs : List Frame} (hlive : r.phase.IsLive)
    (hroom : r.room? = some fs) :
    r.outline = .seeking fs.length ∨
      ∃ n, fs.length = n + 1 ∧ (r.outline = .inAtom (n + 1) ∨ r.outline = .complete (n + 1)) := by
  unfold room? at hroom
  cases hn : r.held? with
  | none =>
      rw [hn] at hroom
      cases hroom
      exact Or.inl (outline_of_not_held hlive hn)
  | some node =>
      cases hf : r.frames with
      | nil => rw [hn, hf] at hroom; cases hroom
      | cons f fs' =>
          rw [hn, hf] at hroom
          cases hroom
          right
          refine ⟨fs'.length, rfl, ?_⟩
          have h := outline_of_held hn
          rw [hf] at h
          rcases h with ⟨-, -, -, h⟩ | h
          · exact Or.inl h
          · exact Or.inr h

/-- The outline of a reader follows the classes of the glyphs. -/
theorem outline_step (r : Reader) (g : Glyph) :
    (r.step d tracing g).outline = r.outline.step (d.classify g.char) := by
  by_cases hlive : r.phase.IsLive
  · obtain ⟨m, fs, ph, events, hr', hmove⟩ := exists_move d tracing hlive g
    rw [hr']
    cases hmove with
    | skip hp hk =>
        have h : r.outline = .seeking r.frames.length := by rw [outline, hp]
        rw [h, Outline.seeking_step_of_isBlank hk]
        rfl
    | rest hn hk =>
        rcases outline_of_held hn with ⟨-, -, -, h⟩ | h
        · rw [h, Outline.inAtom_step_of_isBlank hk]
          rfl
        · rw [h, Outline.complete_step_of_isBlank hk]
          rfl
    | extend hp hk =>
        have h : r.outline = .inAtom r.frames.length := by rw [outline, hp]
        rw [h, hk]
        rfl
    | beginAtom hroom hg hk =>
        rcases outline_of_room hlive hroom with h | ⟨n, hn, h | h⟩
        · rw [h, hk]; rfl
        · rw [h, hk, outline, hn]; rfl
        · rw [h, hk, outline, hn]; rfl
    | openList hroom hk =>
        rcases outline_of_room hlive hroom with h | ⟨n, hn, h | h⟩
        · rw [h, hk]; rfl
        · rw [h, hk, outline, List.length_cons, hn]; rfl
        · rw [h, hk, outline, List.length_cons, hn]; rfl
    | closeList hroom hk =>
        rcases outline_of_room hlive hroom with h | ⟨n, hn, h | h⟩
        · rw [h, hk]; rfl
        · rw [h, hk, ← hn]; rfl
        · rw [h, hk, ← hn]; rfl
    | stray hp hf hk =>
        have h : r.outline = .seeking 0 := by rw [outline, hp, hf]; rfl
        rw [h, hk]
        rfl
    | surplus hn hf hk hg =>
        rcases outline_of_held hn with ⟨start, run, hp, h⟩ | h
        · rw [h, hf]
          cases hk' : d.classify g.char with
          | constituent => exact (hg hk' start run hp).elim
          | newline | blank => rw [hk'] at hk; cases hk
          | opening | closing => rfl
        · rw [h, hf]
          cases hk' : d.classify g.char with
          | newline | blank => rw [hk'] at hk; cases hk
          | opening | closing | constituent => rfl
  · obtain ⟨outcome, next, hp⟩ := not_isLive_iff.1 hlive
    rw [step_of_stopped hp, outline, hp]
    rfl

theorem outline_run (tracing : Bool) (mark : Mark) (gs : List Glyph) :
    (run d tracing mark gs).outline = (Outline.seeking 0).after d gs := by
  induction gs using List.reverseRecOn with
  | nil => rfl
  | append_singleton gs g ih =>
      rw [run_concat, outline_step, ih, Outline.after_concat]

/-! ## The outcome -/

theorem isLive_of_outline_ne (tracing : Bool) (mark : Mark) {gs : List Glyph}
    (h : (Outline.seeking 0).after d gs ≠ .stopped) : (run d tracing mark gs).phase.IsLive := by
  by_cases hlive : (run d tracing mark gs).phase.IsLive
  · exact hlive
  · rw [← outline_eq_stopped_iff, outline_run] at hlive
    exact (h hlive).elim

theorem verdict_of_isDone {r : Reader} (hlive : r.phase.IsLive) (h : r.outline.IsDone) :
    ∃ n, r.verdict d = .ok n := by
  unfold verdict
  cases hn : r.held? with
  | none =>
      rw [outline_of_not_held hlive hn] at h
      rcases h with h | h <;> cases h
  | some node =>
      cases hf : r.frames with
      | nil => exact ⟨node, rfl⟩
      | cons f fs =>
          rcases outline_of_held hn with ⟨-, -, -, ho⟩ | ho
          · rw [ho, hf] at h
            rcases h with h | h <;> cases h
          · rw [ho, hf] at h
            rcases h with h | h <;> cases h

theorem verdict_of_depth {r : Reader} {n : Nat} (h : r.outline.depth? = some (n + 1)) :
    r.verdict d = .error (endFailure d.closingName r.mark) := by
  unfold verdict
  cases hf : r.frames with
  | cons f fs => rfl
  | nil =>
      unfold outline at h
      rw [hf] at h
      cases hp : r.phase <;> rw [hp] at h <;> cases h

theorem verdict_of_seeking {r : Reader} (h : r.outline = .seeking 0) :
    r.verdict d = .error (endFailure "atom or list" r.mark) := by
  unfold verdict
  cases hn : r.held? with
  | some node =>
      rcases outline_of_held hn with ⟨-, -, -, ho⟩ | ho
      · rw [ho] at h; cases h
      · rw [ho] at h; cases h
  | none =>
      cases hf : r.frames with
      | nil => rfl
      | cons f fs =>
          have hlive : r.phase.IsLive := by
            by_cases hlive : r.phase.IsLive
            · exact hlive
            · rw [outline_eq_stopped_iff.2 hlive] at h
              cases h
          rw [outline_of_not_held hlive hn, hf] at h
          cases h

/-- The source is an expression. -/
theorem whole_of_isDone {gs : List Glyph} (h : ((Outline.seeking 0).after d gs).IsDone)
    (mark : Mark) : ∃ n, (readGlyphs d tracing mark gs).whole = .ok n := by
  have hne : (Outline.seeking 0).after d gs ≠ .stopped := by
    rcases h with h | h <;> rw [h] <;> nofun
  have hlive := isLive_of_outline_ne tracing mark hne
  rw [← outline_run tracing mark] at h
  rw [(readGlyphs_of_isLive hlive).2]
  exact verdict_of_isDone hlive h

/-- Lists are open at the end of the source. -/
theorem whole_of_depth {gs : List Glyph} {n : Nat}
    (h : ((Outline.seeking 0).after d gs).depth? = some (n + 1)) (mark : Mark) :
    (readGlyphs d tracing mark gs).whole =
      .error (endFailure d.closingName (mark.after d gs)) := by
  have hne : (Outline.seeking 0).after d gs ≠ .stopped := by
    intro hs
    rw [hs] at h
    cases h
  have hlive := isLive_of_outline_ne tracing mark hne
  rw [(readGlyphs_of_isLive hlive).2, ← mark_run hlive]
  rw [← outline_run tracing mark] at h
  exact verdict_of_depth h

/-- Nothing but blanks has been read at the end of the source. -/
theorem whole_of_seeking {gs : List Glyph} (h : (Outline.seeking 0).after d gs = .seeking 0)
    (mark : Mark) :
    (readGlyphs d tracing mark gs).whole =
      .error (endFailure "atom or list" (mark.after d gs)) := by
  have hlive := isLive_of_outline_ne tracing mark (by rw [h]; nofun)
  rw [(readGlyphs_of_isLive hlive).2, ← mark_run hlive]
  rw [← outline_run tracing mark] at h
  exact verdict_of_seeking h

/-- The outline stops in front of a glyph. -/
theorem whole_of_stop {before : List Glyph} {g : Glyph}
    (h : (Outline.seeking 0).after d before ≠ .stopped)
    (hstop : ((Outline.seeking 0).after d before).step (d.classify g.char) = .stopped)
    (mark : Mark) (after : List Glyph) :
    (readGlyphs d tracing mark (before ++ g :: after)).mark = mark.after d before ∧
      (readGlyphs d tracing mark (before ++ g :: after)).whole =
        .error ⟨.unexpected [g.char], "end of input", (mark.after d before).line,
          (mark.after d before).column⟩ := by
  have hlive := isLive_of_outline_ne tracing mark h
  refine readGlyphs_of_stop hlive ?_ after
  rw [← outline_eq_stopped_iff, outline_step, outline_run]
  exact hstop

/-- An outline that has stopped has stopped in front of some glyph. -/
theorem exists_stop_of_outline {gs : List Glyph} (h : (Outline.seeking 0).after d gs = .stopped) :
    ∃ before g after, gs = before ++ g :: after ∧
      (Outline.seeking 0).after d before ≠ .stopped ∧
      ((Outline.seeking 0).after d before).step (d.classify g.char) = .stopped := by
  have hrun : ¬ (run d false .origin gs).phase.IsLive := by
    rw [← outline_eq_stopped_iff, outline_run]
    exact h
  obtain ⟨before, g, after, hgs, hlive, hstop⟩ := exists_stop hrun
  refine ⟨before, g, after, hgs, ?_, ?_⟩
  · rw [← outline_run false .origin, Ne, outline_eq_stopped_iff, not_not]
    exact hlive
  · rw [← outline_run false .origin, ← outline_step, outline_eq_stopped_iff]
    exact hstop

/-- A source is an expression only if its outline is done. -/
theorem isDone_of_whole {gs : List Glyph} {mark : Mark} {n : Node}
    (h : (readGlyphs d tracing mark gs).whole = .ok n) :
    ((Outline.seeking 0).after d gs).IsDone := by
  rcases ((Outline.seeking 0).after d gs).four_cases with ho | ho | ho | ⟨m, ho⟩
  · obtain ⟨before, g, after, rfl, hbefore, hstop⟩ := exists_stop_of_outline ho
    rw [(whole_of_stop hbefore hstop mark after).2] at h
    cases h
  · exact ho
  · rw [whole_of_seeking ho] at h
    cases h
  · rw [whole_of_depth ho] at h
    cases h

/-- The three ways to fail. -/
theorem failure_cases {gs : List Glyph} {mark : Mark} {f : Failure}
    (h : (readGlyphs d tracing mark gs).whole = .error f) :
    (∃ before g after, gs = before ++ g :: after ∧
        (Outline.seeking 0).after d before ≠ .stopped ∧
        ((Outline.seeking 0).after d before).step (d.classify g.char) = .stopped ∧
        (readGlyphs d tracing mark gs).mark = mark.after d before ∧
        f = ⟨.unexpected [g.char], "end of input", (mark.after d before).line,
          (mark.after d before).column⟩) ∨
      ((Outline.seeking 0).after d gs = .seeking 0 ∧
        f = endFailure "atom or list" (mark.after d gs)) ∨
      ∃ n, ((Outline.seeking 0).after d gs).depth? = some (n + 1) ∧
        f = endFailure d.closingName (mark.after d gs) := by
  rcases ((Outline.seeking 0).after d gs).four_cases with ho | ho | ho | ⟨n, ho⟩
  · left
    obtain ⟨before, g, after, rfl, hbefore, hstop⟩ := exists_stop_of_outline ho
    obtain ⟨hmark, hwhole⟩ := whole_of_stop hbefore hstop mark after
    rw [hwhole] at h
    cases h
    exact ⟨before, g, after, rfl, hbefore, hstop, hmark, rfl⟩
  · have hok : ∃ n, (readGlyphs d tracing mark gs).whole = .ok n := whole_of_isDone ho mark
    obtain ⟨n, hn⟩ := hok
    rw [hn] at h
    cases h
  · right
    left
    rw [whole_of_seeking ho] at h
    cases h
    exact ⟨ho, rfl⟩
  · right
    right
    rw [whole_of_depth ho] at h
    cases h
    exact ⟨n, ho, rfl⟩

end Reader

end SexpReader
