import SexpReader.Proofs.Agreement

/-!
# Reading from the middle of a buffer

What is read where a cursor stands is what is read from the bytes behind it alone, seen from the
cursor. Offsets and lines are counted on from those of the cursor. Columns are counted on too, but
only in the first line: behind a newline, they no longer depend on where reading began.

So this is a simulation. `Reader.beyond` moves a reader to another place, and every step of a
reader commutes with it, as long as the reader has counted its lines from one.
-/

namespace SexpReader

/-! ## Moving what was read -/

namespace Mark

/-- A line of a source, counted on from a place. -/
def lineBeyond (base : Mark) (line : Int) : Int := base.line + line - 1

/-- A column in a line of a source, counted on from a place if it is in the first line. -/
def columnBeyond (base : Mark) (line column : Int) : Int :=
  if line = 1 then base.column + column - 1 else column

/-- A place in a source that begins at the place `base`. -/
def beyond (base m : Mark) : Mark :=
  ⟨base.position + m.position, base.lineBeyond m.line, base.columnBeyond m.line m.column⟩

theorem beyond_origin (base : Mark) : base.beyond .origin = base := by
  obtain ⟨position, line, column⟩ := base
  simp [beyond, lineBeyond, columnBeyond, origin]

theorem position_beyond (base m : Mark) :
    (base.beyond m).position = base.position + m.position := rfl

theorem past_line_le (m : Mark) (k : CharClass) (g : Glyph) : m.line ≤ (m.past k g).line := by
  unfold past
  split
  · change m.line ≤ m.line + 1
    omega
  · exact Int.le_refl m.line

/-- Passing a glyph commutes with moving. The column that a newline resets is not in the first
line any more, since lines are counted from one. -/
theorem past_beyond (base : Mark) {m : Mark} (hm : 1 ≤ m.line) (k : CharClass) (g : Glyph) :
    (base.beyond m).past k g = base.beyond (m.past k g) := by
  unfold past
  dsimp only
  split
  · have hline : ¬ m.line + 1 = 1 := by omega
    simp only [beyond, lineBeyond, columnBeyond, advance, advanceLine,
      Mark.mk.injEq]
    omega
  · simp only [beyond, lineBeyond, columnBeyond, advance, Mark.mk.injEq, true_and]
    split <;> omega

end Mark

theorem Bounds.shift_between (base start stop : Nat) :
    (between start stop).shift base = between (base + start) (base + stop) := by
  simp [between, shift, Int.add_comm]

/-- The failure of a reading that begins at the place `base`. -/
def Failure.beyond (base : Mark) (f : Failure) : Failure :=
  { f with line := base.lineBeyond f.line, column := base.columnBeyond f.line f.column }

/-- The outcome of a reading that begins at the place `base`. -/
def Outcome.beyond (base : Mark) : Outcome → Outcome
  | .ok node => .ok (node.shift base.position)
  | .error failure => .error (failure.beyond base)

/-- An event of a reading that begins at the place `base`. -/
def Event.beyond (base : Mark) : Event → Event
  | .expression outcome mark => .expression (outcome.beyond base) (base.beyond mark)
  | .listEnd failure => .listEnd (failure.beyond base)

/-- A list that was opened by a reading that begins at the place `base`. -/
def Frame.beyond (base : Mark) (f : Frame) : Frame :=
  ⟨base.position + f.start, Tree.shiftAll base.position f.items⟩

/-- The phase of a reader that began at the place `base`. -/
def Phase.beyond (base : Mark) : Phase → Phase
  | .seeking => .seeking
  | .inAtom start run => .inAtom (base.position + start) run
  | .complete node => .complete (node.shift base.position)
  | .stopped outcome next => .stopped (outcome.beyond base) next

theorem Tree.shiftAll_eq_map {α : Type} (offset : Int) (xs : List (Tree α)) :
    shiftAll offset xs = xs.map (shift offset) := by
  induction xs with
  | nil => rfl
  | cons x xs ih => rw [shiftAll, ih, List.map_cons]

namespace Reader

variable {d : Dialect} {tracing : Bool} (base : Mark)

/-- A reader that began at the place `base`. -/
def beyond (r : Reader) : Reader :=
  ⟨base.beyond r.mark, r.frames.map (Frame.beyond base), r.phase.beyond base,
    r.events.map (Event.beyond base)⟩

theorem start_beyond : start base = (start .origin).beyond base := by
  simp [start, beyond, Phase.beyond, Mark.beyond_origin]

theorem endFailure_beyond (expected : Text) (m : Mark) :
    endFailure expected (base.beyond m) = (endFailure expected m).beyond base := rfl

theorem record_beyond (e : Event) (r : Reader) :
    (r.beyond base).record tracing (e.beyond base) = (r.record tracing e).beyond base := by
  cases tracing <;> rfl

theorem record_ok_beyond (node : Node) (r : Reader) :
    (r.beyond base).record tracing
        (.expression (.ok (node.shift base.position)) (r.beyond base).mark) =
      (r.record tracing (.expression (.ok node) r.mark)).beyond base :=
  record_beyond base (.expression (.ok node) r.mark) r

theorem atomNode_beyond (start : Nat) (run : List Glyph) (r : Reader) :
    (r.beyond base).atomNode (base.position + start) run =
      (r.atomNode start run).shift base.position := by
  rw [atomNode, atomNode, Tree.shift, Bounds.shift_between]
  rfl

/-! ## Steps -/

variable {r : Reader} {k : CharClass} {g : Glyph}

theorem pass_beyond (hr : 1 ≤ r.mark.line) :
    (r.beyond base).pass k g = (r.pass k g).beyond base := by
  unfold pass beyond
  rw [Mark.past_beyond base hr]

theorem seek_beyond (hr : 1 ≤ r.mark.line) :
    (r.beyond base).seek tracing k g = (r.seek tracing k g).beyond base := by
  have hpass : (base.beyond r.mark).past k g = base.beyond (r.mark.past k g) :=
    Mark.past_beyond base hr k g
  obtain ⟨m, frames, phase, events⟩ := r
  cases k with
  | newline | blank => exact pass_beyond base hr
  | opening | constituent =>
      simp [seek, beyond, pass, hpass, Frame.beyond, Phase.beyond, Tree.shiftAll,
        Mark.position_beyond]
  | closing =>
      cases frames with
      | nil => cases tracing <;> rfl
      | cons f fs =>
          cases tracing <;>
            simp [seek, beyond, pass, record, hpass, Frame.beyond, Phase.beyond, Tree.shift,
              Tree.shiftAll_eq_map, Bounds.shift_between, Mark.position_beyond, Event.beyond,
              Outcome.beyond, endFailure_beyond]

theorem settle_beyond (hr : 1 ≤ r.mark.line) (node : Node) :
    (r.beyond base).settle tracing (node.shift base.position) k g =
      (r.settle tracing node k g).beyond base := by
  have hmark : (r.record tracing (.expression (.ok node) r.mark)).mark = r.mark :=
    record_mark _ r
  unfold settle
  by_cases hk : k.isBlank = true
  · rw [if_pos hk, if_pos hk, pass_beyond base hr]
    rfl
  · rw [if_neg hk, if_neg hk]
    dsimp only
    rw [record_ok_beyond]
    generalize r.record tracing (.expression (.ok node) r.mark) = r' at hmark ⊢
    obtain ⟨m, frames, phase, events⟩ := r'
    cases frames with
    | nil => rfl
    | cons f fs =>
        rw [← hmark] at hr
        exact seek_beyond base
          (r := ⟨m, { f with items := node :: f.items } :: fs, .seeking, events⟩) hr

theorem step_beyond (hr : 1 ≤ r.mark.line) :
    (r.beyond base).step d tracing g = (r.step d tracing g).beyond base := by
  obtain ⟨m, frames, phase, events⟩ := r
  cases phase with
  | seeking => exact seek_beyond base hr
  | stopped outcome next => rfl
  | complete node => exact settle_beyond base hr node
  | inAtom start run =>
      change (if d.classify g.char = .constituent then _ else _) =
        (if d.classify g.char = .constituent then _ else _ : Reader).beyond base
      by_cases hk : d.classify g.char = .constituent
      · rw [if_pos hk, if_pos hk, pass_beyond base hr]
        rfl
      · rw [if_neg hk, if_neg hk, atomNode_beyond]
        exact settle_beyond base hr _

/-- No step goes back to an earlier line. -/
theorem line_le_step (d : Dialect) (tracing : Bool) (r : Reader) (g : Glyph) :
    r.mark.line ≤ (r.step d tracing g).mark.line := by
  by_cases hlive : r.phase.IsLive
  · obtain ⟨m, fs, ph, events, hr', hmove⟩ := exists_move d tracing hlive g
    rw [hr']
    cases hmove with
    | stray | surplus => exact Int.le_refl r.mark.line
    | _ => exact Mark.past_line_le r.mark _ g
  · obtain ⟨outcome, next, hp⟩ := not_isLive_iff.1 hlive
    exact Int.le_of_eq (by rw [step_of_stopped hp])

/-! ## Runs and readings -/

theorem foldl_step_beyond (hr : 1 ≤ r.mark.line) (gs : List Glyph) :
    gs.foldl (step d tracing) (r.beyond base) = (gs.foldl (step d tracing) r).beyond base := by
  induction gs generalizing r with
  | nil => rfl
  | cons g gs ih =>
      rw [List.foldl_cons, List.foldl_cons, step_beyond base hr]
      exact ih (Int.le_trans hr (line_le_step d tracing r g))

theorem giveUp_beyond (failure reason : Failure) (m : Mark) (fs : List Frame) :
    giveUp (failure.beyond base) (base.beyond m) (reason.beyond base)
        (fs.map (Frame.beyond base)) =
      (giveUp failure m reason fs).map (Event.beyond base) := by
  induction fs generalizing reason with
  | nil => rfl
  | cons f fs ih =>
      rw [List.map_cons, giveUp, giveUp, ih]
      rfl

end Reader

/-- A reading that begins at the place `base`. -/
def Reading.beyond (base : Mark) (r : Reading) : Reading :=
  ⟨r.outcome.beyond base, r.next?, base.beyond r.mark, r.events.map (Event.beyond base)⟩

namespace Reader

variable {d : Dialect} {tracing : Bool} (base : Mark)

theorem finishSeeking_beyond (r : Reader) :
    (r.beyond base).finishSeeking d tracing = (r.finishSeeking d tracing).beyond base := by
  obtain ⟨m, frames, phase, events⟩ := r
  have hevents : (events.map (Event.beyond base)).reverse =
      events.reverse.map (Event.beyond base) := List.map_reverse.symm
  unfold finishSeeking beyond Reading.beyond
  dsimp only
  rw [hevents, endFailure_beyond, endFailure_beyond, giveUp_beyond, List.map_append]
  cases frames <;> cases tracing <;> rfl

theorem finishComplete_beyond (node : Node) (r : Reader) :
    (r.beyond base).finishComplete d tracing (node.shift base.position) =
      (r.finishComplete d tracing node).beyond base := by
  unfold finishComplete
  dsimp only
  rw [record_ok_beyond]
  generalize r.record tracing (.expression (.ok node) r.mark) = r'
  obtain ⟨m, frames, phase, events⟩ := r'
  cases frames with
  | nil => simp [beyond, Reading.beyond, Outcome.beyond]
  | cons f fs => exact finishSeeking_beyond base ⟨m, f :: fs, phase, events⟩

theorem finish_beyond (r : Reader) :
    (r.beyond base).finish d tracing = (r.finish d tracing).beyond base := by
  obtain ⟨m, frames, phase, events⟩ := r
  cases phase with
  | seeking => exact finishSeeking_beyond base _
  | stopped outcome next => simp [finish, beyond, Phase.beyond, Reading.beyond]
  | complete node => exact finishComplete_beyond base node _
  | inAtom start run =>
      change finishComplete d tracing (atomNode (base.position + start) run (beyond base _)) _ = _
      rw [atomNode_beyond]
      exact finishComplete_beyond base _ _

/-- A reading that begins at the place `base` is one that begins at the origin, moved there. -/
theorem readGlyphs_beyond (d : Dialect) (tracing : Bool) (gs : List Glyph) :
    readGlyphs d tracing base gs = (readGlyphs d tracing .origin gs).beyond base := by
  rw [readGlyphs, readGlyphs, start_beyond base,
    foldl_step_beyond base (r := start .origin) (Int.le_refl 1), finish_beyond]

end Reader

theorem Reading.whole_beyond (base : Mark) (r : Reading) :
    (r.beyond base).whole = r.whole.beyond base := by
  unfold whole beyond
  cases r.next? <;> rfl

/-- What parsing comes to if the cursor begins at the place of `c` in its buffer. -/
def Parsed.beyond (c : Cursor) (p : Parsed) : Parsed :=
  ⟨p.outcome.beyond c.mark, ⟨c.buffer, c.mark.beyond p.cursor.mark⟩,
    p.events.map (Event.beyond c.mark)⟩

namespace Cursor

theorem rest_ofBytes (b : Bytes) : (ofBytes b).rest = b := List.drop_zero

/-- Parsing where a cursor stands is parsing the bytes behind it, moved there. -/
theorem parse_beyond (d : Dialect) (tracing : Bool) (c : Cursor) :
    c.parse d tracing = ((ofBytes c.rest).parse d tracing).beyond c := by
  unfold parse
  rw [rest_ofBytes, Reader.readGlyphs_beyond c.mark]
  dsimp only
  rw [Reading.whole_beyond]
  rfl

end Cursor

/-- Parsing where a cursor stands comes to what parsing the bytes behind it comes to. A tree has
its bounds moved by the offset of the cursor; a failure is the same failure in its own line and
column. These and the place where parsing ends are counted on from the cursor. What is read by
descent agrees, so the same holds of it, events included. -/
theorem parse_where_cursor_stands (d : Dialect) (tracing : Bool) (c : Cursor)
    (hc : c.mark.position ≤ c.size) :
    let alone := (Cursor.ofBytes c.rest).parse d tracing
    let there := c.parse d tracing
    (∀ n, alone.outcome = .ok n → there.outcome = .ok (n.shift c.mark.position)) ∧
    (∀ f, alone.outcome = .error f → there.outcome = .error ⟨f.cause, f.expected,
      c.mark.line + f.line - 1,
      if f.line = 1 then c.mark.column + f.column - 1 else f.column⟩) ∧
    there.cursor.buffer = c.buffer ∧
    there.cursor.mark.position = c.mark.position + alone.cursor.mark.position ∧
    there.cursor.mark.line = c.mark.line + alone.cursor.mark.line - 1 ∧
    there.cursor.mark.column =
      (if alone.cursor.mark.line = 1 then c.mark.column + alone.cursor.mark.column - 1
        else alone.cursor.mark.column) ∧
    ∃ p, (Cursor.ofBytes c.rest).descend d = pure p ∧ c.descend d = pure (p.beyond c) := by
  intro alone there
  have hthere : there = alone.beyond c := c.parse_beyond d tracing
  refine ⟨?_, ?_, ?_, ?_, ?_, ?_, ?_⟩
  · intro n hn
    rw [hthere, Parsed.beyond, hn]
    rfl
  · intro f hf
    rw [hthere, Parsed.beyond, hf]
    rfl
  · rw [hthere]
    rfl
  · rw [hthere]
    rfl
  · rw [hthere]
    rfl
  · rw [hthere]
    rfl
  · refine ⟨_, Cursor.descend_eq d (Nat.zero_le _), ?_⟩
    rw [Cursor.descend_eq d hc, c.parse_beyond d true]

/-- A cursor in the middle of a character and in front of the origin. The bracket that is left over
stands in the next line, in its first column. -/
theorem parse_inside_character :
    let c : Cursor := ⟨[0x28, 0xC3, 0xA9, 0x0A, 0x29], ⟨2, -3, -7⟩⟩
    c.mark.position ≤ c.size ∧
      (c.parse .standard false).outcome = .error ⟨.unexpected ")", "end of input", -2, 1⟩ :=
  ⟨by decide, (parse_where_cursor_stands .standard false _ (by decide)).2.1
    ⟨.unexpected ")", "end of input", 2, 1⟩ rfl⟩

end SexpReader
