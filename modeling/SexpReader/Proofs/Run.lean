import Mathlib.Data.List.Induction
import SexpReader.Reader.Parse

/-!
# Runs of the reader

A reader that has not stopped is live. `Move d r g` is everything that a glyph `g` can do to a live
reader `r`, events apart: it relates `r` and `g` to the mark, the open lists and the phase
afterwards. What a step preserves is shown by cases on it, without opening the step itself.

A run takes the glyphs of a source one after the other, and `Reader.run` is the reader it reaches.
There are two ways in which a reading can go. Either the reader is live to the end, and then the
outcome depends on what it holds there, which is `Reader.verdict`. Or the source is
`before ++ g :: after`, where the reader is live up to `g` and stops in front of `g`, and then
parsing fails at `g`.
-/

namespace SexpReader

/-- Whether the reader still takes glyphs. -/
def Phase.IsLive : Phase → Prop
  | .stopped .. => False
  | _ => True

/-- The place after some glyphs. -/
def Mark.after (d : Dialect) (m : Mark) (gs : List Glyph) : Mark :=
  gs.foldl (fun m g => m.past (d.classify g.char) g) m

theorem Mark.position_past (m : Mark) (k : CharClass) (g : Glyph) :
    (m.past k g).position = m.position + g.bytes.length := by
  unfold past
  dsimp only
  split <;> rfl

theorem Mark.after_append (d : Dialect) (m : Mark) (gs hs : List Glyph) :
    m.after d (gs ++ hs) = (m.after d gs).after d hs :=
  List.foldl_append

theorem Mark.after_concat (d : Dialect) (m : Mark) (gs : List Glyph) (g : Glyph) :
    m.after d (gs ++ [g]) = (m.after d gs).past (d.classify g.char) g := by
  rw [after, List.foldl_append]
  rfl

namespace Reader

variable {d : Dialect} {tracing : Bool}

@[simp] theorem record_mark (e : Event) (r : Reader) : (r.record tracing e).mark = r.mark := by
  cases tracing <;> rfl

@[simp] theorem record_frames (e : Event) (r : Reader) :
    (r.record tracing e).frames = r.frames := by
  cases tracing <;> rfl

@[simp] theorem record_phase (e : Event) (r : Reader) : (r.record tracing e).phase = r.phase := by
  cases tracing <;> rfl

/-- The complete expression that a reader holds but has not handed over yet. -/
def held? (r : Reader) : Option Node :=
  match r.phase with
  | .complete node => some node
  | .inAtom start run => some (r.atomNode start run)
  | .seeking | .stopped .. => none

/-- The open lists once the expression held is handed over to the innermost of them. If an
expression is held and no list is open, there is no room for another. -/
def room? (r : Reader) : Option (List Frame) :=
  match r.held?, r.frames with
  | none, fs => some fs
  | some node, f :: fs => some ({ f with items := node :: f.items } :: fs)
  | some _, [] => none

/-- The glyph is not one more character of an atom that the reader is inside. -/
def Separate (d : Dialect) (r : Reader) (g : Glyph) : Prop :=
  d.classify g.char = .constituent → ∀ start run, r.phase ≠ .inAtom start run

theorem separate_of_ne {r : Reader} {g : Glyph} (h : d.classify g.char ≠ .constituent) :
    Separate d r g :=
  fun hk => (h hk).elim

/-- What a glyph can do to a live reader. -/
inductive Move (d : Dialect) (r : Reader) (g : Glyph) : Mark → List Frame → Phase → Prop where
  /-- A blank before an expression. -/
  | skip (hp : r.phase = .seeking) (hk : (d.classify g.char).isBlank) :
      Move d r g (r.mark.past (d.classify g.char) g) r.frames .seeking
  /-- A blank after an expression. -/
  | rest {node : Node} (hn : r.held? = some node) (hk : (d.classify g.char).isBlank) :
      Move d r g (r.mark.past (d.classify g.char) g) r.frames (.complete node)
  /-- One more character of an atom. -/
  | extend {start : Nat} {run : List Glyph} (hp : r.phase = .inAtom start run)
      (hk : d.classify g.char = .constituent) :
      Move d r g (r.mark.past (d.classify g.char) g) r.frames (.inAtom start (g :: run))
  /-- The first character of an atom. -/
  | beginAtom {fs : List Frame} (hroom : r.room? = some fs) (hg : Separate d r g)
      (hk : d.classify g.char = .constituent) :
      Move d r g (r.mark.past (d.classify g.char) g) fs (.inAtom r.mark.position [g])
  | openList {fs : List Frame} (hroom : r.room? = some fs) (hk : d.classify g.char = .opening) :
      Move d r g (r.mark.past (d.classify g.char) g) (⟨r.mark.position, []⟩ :: fs) .seeking
  | closeList {f : Frame} {fs : List Frame} (hroom : r.room? = some (f :: fs))
      (hk : d.classify g.char = .closing) :
      Move d r g (r.mark.past (d.classify g.char) g) fs
        (.complete (.list f.items.reverse
          (.between f.start (r.mark.past (d.classify g.char) g).position)))
  /-- A closing bracket where nothing is open and nothing has been read. -/
  | stray (hp : r.phase = .seeking) (hf : r.frames = []) (hk : d.classify g.char = .closing) :
      Move d r g r.mark [] (.stopped (.error (endFailure "atom" r.mark)) g.char)
  /-- Anything but a blank after a complete outermost expression. -/
  | surplus {node : Node} (hn : r.held? = some node) (hf : r.frames = [])
      (hk : (d.classify g.char).isBlank = false) (hg : Separate d r g) :
      Move d r g r.mark [] (.stopped (.ok node) g.char)

theorem move_seek {r : Reader} (g : Glyph) (hp : r.phase = .seeking) :
    Move d r g (r.seek tracing (d.classify g.char) g).mark
      (r.seek tracing (d.classify g.char) g).frames
      (r.seek tracing (d.classify g.char) g).phase := by
  have hroom : r.room? = some r.frames := by
    rw [room?, held?, hp]
  cases hk : d.classify g.char with
  | newline =>
      have h := Move.skip (d := d) (g := g) hp (by rw [hk]; rfl)
      rw [hk] at h
      simpa only [seek, pass, hp] using h
  | blank =>
      have h := Move.skip (d := d) (g := g) hp (by rw [hk]; rfl)
      rw [hk] at h
      simpa only [seek, pass, hp] using h
  | opening =>
      have h := Move.openList hroom hk
      rw [hk] at h
      simpa only [seek, pass, hp] using h
  | constituent =>
      have hg : Separate d r g := by
        intro _ start run hin
        rw [hp] at hin
        cases hin
      have h := Move.beginAtom hroom hg hk
      rw [hk] at h
      exact h
  | closing =>
      cases hf : r.frames with
      | nil =>
          have h := Move.stray hp hf hk
          simpa [seek, hf] using h
      | cons f fs =>
          rw [hf] at hroom
          have h := Move.closeList hroom hk
          rw [hk] at h
          simpa [seek, hf, pass] using h

theorem move_settle {r : Reader} {node : Node} {g : Glyph} (hn : r.held? = some node)
    (hg : Separate d r g) :
    Move d r g (r.settle tracing node (d.classify g.char) g).mark
      (r.settle tracing node (d.classify g.char) g).frames
      (r.settle tracing node (d.classify g.char) g).phase := by
  unfold settle
  by_cases hb : (d.classify g.char).isBlank = true
  · rw [if_pos hb]
    exact .rest hn hb
  · rw [if_neg hb]
    cases hf : r.frames with
    | nil =>
        simpa [hf] using Move.surplus hn hf (Bool.eq_false_iff.2 hb) hg
    | cons f fs =>
        have hroom : r.room? = some ({ f with items := node :: f.items } :: fs) := by
          rw [room?, hn, hf]
        simp only [record_frames, hf]
        cases hk : d.classify g.char with
        | newline => rw [hk] at hb; exact (hb rfl).elim
        | blank => rw [hk] at hb; exact (hb rfl).elim
        | opening =>
            have h := Move.openList hroom hk
            rw [hk] at h
            simpa [seek, pass] using h
        | constituent =>
            have h := Move.beginAtom hroom hg hk
            rw [hk] at h
            simpa [seek, pass] using h
        | closing =>
            have h := Move.closeList hroom hk
            rw [hk] at h
            simpa [seek, pass] using h

/-- A step of a live reader is a move. -/
theorem move_step (d : Dialect) (tracing : Bool) {r : Reader} (hr : r.phase.IsLive) (g : Glyph) :
    Move d r g (r.step d tracing g).mark (r.step d tracing g).frames
      (r.step d tracing g).phase := by
  unfold step stepAs
  cases hp : r.phase with
  | seeking => exact move_seek g hp
  | stopped outcome next =>
      rw [hp] at hr
      exact hr.elim
  | complete node =>
      apply move_settle
      · rw [held?, hp]
      · intro _ start run hin
        rw [hp] at hin
        cases hin
  | inAtom start run =>
      dsimp only
      by_cases hk : d.classify g.char = .constituent
      · rw [if_pos hk]
        exact .extend hp hk
      · rw [if_neg hk]
        apply move_settle
        · rw [held?, hp]
        · exact separate_of_ne hk

theorem exists_move (d : Dialect) (tracing : Bool) {r : Reader} (hr : r.phase.IsLive)
    (g : Glyph) :
    ∃ m fs ph events, r.step d tracing g = ⟨m, fs, ph, events⟩ ∧ Move d r g m fs ph :=
  ⟨_, _, _, _, rfl, move_step d tracing hr g⟩

/-! ## Runs -/

/-- The reader after the glyphs of a source. -/
def run (d : Dialect) (tracing : Bool) (mark : Mark) (gs : List Glyph) : Reader :=
  gs.foldl (step d tracing) (start mark)

theorem run_concat (mark : Mark) (gs : List Glyph) (g : Glyph) :
    run d tracing mark (gs ++ [g]) = (run d tracing mark gs).step d tracing g := by
  rw [run, List.foldl_append]
  rfl

theorem not_isLive_iff {r : Reader} :
    ¬ r.phase.IsLive ↔ ∃ outcome next, r.phase = .stopped outcome next := by
  cases h : r.phase <;> simp [Phase.IsLive]

/-- Once it has stopped, the reader stays as it is for the rest of the source. -/
theorem run_append_of_not_isLive {mark : Mark} {gs : List Glyph}
    (h : ¬ (run d tracing mark gs).phase.IsLive) (hs : List Glyph) :
    run d tracing mark (gs ++ hs) = run d tracing mark gs := by
  obtain ⟨outcome, next, hphase⟩ := not_isLive_iff.1 h
  rw [run, List.foldl_append]
  exact foldl_step_of_stopped hphase hs

theorem isLive_run_of_append {mark : Mark} {gs hs : List Glyph}
    (h : (run d tracing mark (gs ++ hs)).phase.IsLive) :
    (run d tracing mark gs).phase.IsLive := by
  by_cases hgs : (run d tracing mark gs).phase.IsLive
  · exact hgs
  · rw [run_append_of_not_isLive hgs] at h
    exact h

/-- What holds of the start and of every live reader after a step holds of every live reader at
the end of a run. -/
theorem run_induction {mark : Mark} {motive : List Glyph → Reader → Prop}
    (hstart : motive [] (start mark))
    (hstep : ∀ gs r g, r.phase.IsLive → motive gs r → (r.step d tracing g).phase.IsLive →
      motive (gs ++ [g]) (r.step d tracing g))
    {gs : List Glyph} (h : (run d tracing mark gs).phase.IsLive) :
    motive gs (run d tracing mark gs) := by
  induction gs using List.reverseRecOn with
  | nil => exact hstart
  | append_singleton gs g ih =>
      have hlive := isLive_run_of_append h
      rw [run_concat] at h ⊢
      exact hstep gs _ g hlive (ih hlive) h

/-- A live reader has moved over all glyphs so far. -/
theorem mark_run {mark : Mark} {gs : List Glyph} (h : (run d tracing mark gs).phase.IsLive) :
    (run d tracing mark gs).mark = mark.after d gs := by
  refine run_induction (motive := fun gs r => r.mark = mark.after d gs) rfl ?_ h
  intro gs r g hr ih hstep
  obtain ⟨m, fs, ph, events, hr', hmove⟩ := exists_move d tracing hr g
  rw [Mark.after_concat, ← ih]
  rw [hr'] at hstep ⊢
  cases hmove with
  | stray => exact hstep.elim
  | surplus => exact hstep.elim
  | _ => rfl

/-- A run that is not live to the end stops in front of one of the glyphs. -/
theorem exists_stop {mark : Mark} {gs : List Glyph}
    (h : ¬ (run d tracing mark gs).phase.IsLive) :
    ∃ before g after, gs = before ++ g :: after ∧
      (run d tracing mark before).phase.IsLive ∧
      ¬ ((run d tracing mark before).step d tracing g).phase.IsLive := by
  induction gs using List.reverseRecOn with
  | nil => exact (h trivial).elim
  | append_singleton gs g ih =>
      by_cases hgs : (run d tracing mark gs).phase.IsLive
      · rw [run_concat] at h
        exact ⟨gs, g, [], rfl, hgs, h⟩
      · obtain ⟨before, g', after, rfl, hbefore, hstop⟩ := ih hgs
        exact ⟨before, g', after ++ [g], by simp, hbefore, hstop⟩

/-- A reader that a glyph has stopped takes nothing of what comes after it. -/
theorem run_of_stop {mark : Mark} {before : List Glyph} {g : Glyph}
    (hstop : ¬ ((run d tracing mark before).step d tracing g).phase.IsLive)
    (after : List Glyph) :
    run d tracing mark (before ++ g :: after) = (run d tracing mark before).step d tracing g := by
  rw [← run_concat] at hstop ⊢
  rw [List.append_cons]
  exact run_append_of_not_isLive hstop after

/-- The reader stops in front of a glyph without moving, and with no list open. -/
theorem step_of_not_isLive {r : Reader} {g : Glyph} (hr : r.phase.IsLive)
    (h : ¬ (r.step d tracing g).phase.IsLive) :
    (r.step d tracing g).mark = r.mark ∧
      ∃ outcome, (r.step d tracing g).phase = .stopped outcome g.char := by
  obtain ⟨m, fs, ph, events, hr', hmove⟩ := exists_move d tracing hr g
  rw [hr'] at h ⊢
  cases hmove with
  | stray => exact ⟨rfl, _, rfl⟩
  | surplus => exact ⟨rfl, _, rfl⟩
  | _ => exact (h trivial).elim

/-! ## Readings -/

/-- What parsing comes to if the source ends where the reader is live. -/
def verdict (d : Dialect) (r : Reader) : Outcome :=
  match r.frames, r.held? with
  | [], some node => .ok node
  | [], none => .error (endFailure "atom or list" r.mark)
  | _ :: _, _ => .error (endFailure d.closingName r.mark)

theorem finishSeeking_whole (d : Dialect) (tracing : Bool) (r : Reader) :
    (r.finishSeeking d tracing).mark = r.mark ∧
      (r.finishSeeking d tracing).whole = .error (endFailure
        (if r.frames.isEmpty then "atom or list" else d.closingName) r.mark) := by
  unfold finishSeeking Reading.whole
  cases r.frames <;> exact ⟨rfl, rfl⟩

theorem finishComplete_whole (d : Dialect) (tracing : Bool) (node : Node) (r : Reader) :
    (r.finishComplete d tracing node).mark = r.mark ∧
      (r.finishComplete d tracing node).whole =
        if r.frames.isEmpty then .ok node else .error (endFailure d.closingName r.mark) := by
  unfold finishComplete
  dsimp only
  rw [record_frames]
  cases hf : r.frames with
  | nil => exact ⟨record_mark _ r, rfl⟩
  | cons f fs =>
      obtain ⟨hmark, hwhole⟩ := finishSeeking_whole d tracing
        (r.record tracing (.expression (.ok node) r.mark))
      rw [record_mark] at hmark hwhole
      rw [record_frames, hf] at hwhole
      exact ⟨hmark, hwhole⟩

/-- The end of the source where the reader is live. -/
theorem finish_of_isLive {r : Reader} (hr : r.phase.IsLive) :
    (r.finish d tracing).mark = r.mark ∧ (r.finish d tracing).whole = r.verdict d := by
  unfold finish verdict held?
  cases hp : r.phase with
  | stopped outcome next =>
      rw [hp] at hr
      exact hr.elim
  | seeking =>
      have h := finishSeeking_whole d tracing r
      cases hf : r.frames <;> simpa [hf] using h
  | complete node =>
      have h := finishComplete_whole d tracing node r
      cases hf : r.frames <;> simpa [hf] using h
  | inAtom start run =>
      have h := finishComplete_whole d tracing (r.atomNode start run) r
      cases hf : r.frames <;> simpa [hf] using h

theorem readGlyphs_of_isLive {mark : Mark} {gs : List Glyph}
    (h : (run d tracing mark gs).phase.IsLive) :
    (readGlyphs d tracing mark gs).mark = mark.after d gs ∧
      (readGlyphs d tracing mark gs).whole = (run d tracing mark gs).verdict d := by
  rw [← mark_run h]
  exact finish_of_isLive h

theorem readGlyphs_of_stop {mark : Mark} {before : List Glyph} {g : Glyph}
    (h : (run d tracing mark before).phase.IsLive)
    (hstop : ¬ ((run d tracing mark before).step d tracing g).phase.IsLive)
    (after : List Glyph) :
    (readGlyphs d tracing mark (before ++ g :: after)).mark = mark.after d before ∧
      (readGlyphs d tracing mark (before ++ g :: after)).whole =
        .error ⟨.unexpected [g.char], "end of input", (mark.after d before).line,
          (mark.after d before).column⟩ := by
  obtain ⟨hmark, outcome, hphase⟩ := step_of_not_isLive h hstop
  have hfinish : readGlyphs d tracing mark (before ++ g :: after) =
      ⟨outcome, some g.char, mark.after d before,
        ((run d tracing mark before).step d tracing g).events.reverse⟩ := by
    change (run d tracing mark (before ++ g :: after)).finish d tracing = _
    rw [run_of_stop hstop after, finish, hphase, hmark, mark_run h]
  rw [hfinish]
  exact ⟨rfl, rfl⟩

/-- The two ways in which a reading can go. -/
theorem readGlyphs_cases (d : Dialect) (tracing : Bool) (mark : Mark) (gs : List Glyph) :
    (run d tracing mark gs).phase.IsLive ∨
      ∃ before g after, gs = before ++ g :: after ∧
        (run d tracing mark before).phase.IsLive ∧
        ¬ ((run d tracing mark before).step d tracing g).phase.IsLive := by
  by_cases h : (run d tracing mark gs).phase.IsLive
  · exact Or.inl h
  · exact Or.inr (exists_stop h)

/-! ## Recording -/

/-- The reader without what it has recorded. -/
def quiet (r : Reader) : Reader := { r with events := [] }

theorem quiet_seek (k : CharClass) (g : Glyph) (r : Reader) :
    (r.seek true k g).quiet = r.quiet.seek false k g := by
  cases k with
  | newline | blank | opening | constituent => rfl
  | closing =>
      obtain ⟨m, frames, phase, events⟩ := r
      cases frames <;> rfl

theorem quiet_settle (node : Node) (k : CharClass) (g : Glyph) (r : Reader) :
    (r.settle true node k g).quiet = r.quiet.settle false node k g := by
  obtain ⟨m, frames, phase, events⟩ := r
  by_cases hk : k.isBlank = true
  · rw [settle, settle, if_pos hk, if_pos hk]
    rfl
  · rw [settle, settle, if_neg hk, if_neg hk]
    cases frames with
    | nil => rfl
    | cons f fs => exact quiet_seek k g _

theorem quiet_step (r : Reader) (g : Glyph) :
    (r.step d true g).quiet = r.quiet.step d false g := by
  obtain ⟨m, frames, phase, events⟩ := r
  cases phase with
  | seeking => exact quiet_seek _ g _
  | stopped outcome next => rfl
  | complete node => exact quiet_settle node _ g _
  | inAtom start run =>
      by_cases hk : d.classify g.char = .constituent
      · simp only [step, stepAs, quiet, if_pos hk]
        rfl
      · simp only [step, stepAs, quiet, if_neg hk]
        exact quiet_settle _ _ g _

theorem quiet_finish (r : Reader) :
    r.quiet.finish d false = { r.finish d true with events := [] } := by
  obtain ⟨m, frames, phase, events⟩ := r
  cases phase with
  | seeking | stopped outcome next => rfl
  | complete node | inAtom start run => cases frames <;> rfl

/-- Recording has no influence on the reading. -/
theorem readGlyphs_quiet (d : Dialect) (mark : Mark) (gs : List Glyph) :
    readGlyphs d false mark gs = { readGlyphs d true mark gs with events := [] } := by
  have hrun (r : Reader) : (gs.foldl (step d true) r).quiet = gs.foldl (step d false) r.quiet := by
    induction gs generalizing r with
    | nil => rfl
    | cons g gs ih => rw [List.foldl_cons, List.foldl_cons, ih, quiet_step]
  unfold readGlyphs
  rw [← quiet_finish, hrun]
  rfl

end Reader

theorem parseBytes_eq (d : Dialect) (b : Bytes) :
    parseBytes d b = (Reader.readGlyphs d false .origin (Utf8.glyphs b)).whole := rfl

theorem Cursor.parse_quiet (d : Dialect) (c : Cursor) :
    c.parse d false = { c.parse d true with events := [] } := by
  unfold parse
  rw [Reader.readGlyphs_quiet]
  rfl

theorem outcome_parse_ofBytes (d : Dialect) (tracing : Bool) (b : Bytes) :
    ((Cursor.ofBytes b).parse d tracing).outcome = parseBytes d b := by
  cases tracing with
  | false => rfl
  | true => rw [parseBytes, Cursor.parse_quiet]

end SexpReader
