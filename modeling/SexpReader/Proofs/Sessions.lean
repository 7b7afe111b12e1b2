import SexpReader.Proofs.InPlace
import SexpReader.Proofs.Place
import SexpReader.Proofs.Progress

/-!
# What holds all through a session

A session begins at the start of a buffer. Whatever is done, the buffer stays as it is, and the
cursor stays inside it and does not go back; and an operation that is refused leaves everything as
it was. One operation preserves this, since only so much can come of it (`Cursor.Performs`), and a
session is a sequence of operations.
-/

namespace SexpReader

namespace Cursor

variable {b : Bytes} {c c' : Cursor} {op : Operation} {answer : Except Refusal Reply}

/-- The cursor after one thing has been done after the other. -/
def reached (c : Cursor) (ops : List Operation) : Cursor :=
  ops.foldl (fun c op => (c.perform op).2) c

theorem reached_cons (c : Cursor) (op : Operation) (ops : List Operation) :
    c.reached (op :: ops) = (c.perform op).2.reached ops := rfl

theorem reached_concat (c : Cursor) (ops : List Operation) (op : Operation) :
    c.reached (ops ++ [op]) = ((c.reached ops).perform op).2 := by
  rw [reached, List.foldl_append]
  rfl

theorem session_cons (c : Cursor) (op : Operation) (ops : List Operation) :
    c.session (op :: ops) =
      ((c.perform op).1, (c.perform op).2.mark) :: (c.perform op).2.session ops := rfl

theorem session_append (c : Cursor) (ops more : List Operation) :
    c.session (ops ++ more) = c.session ops ++ (c.reached ops).session more := by
  induction ops generalizing c with
  | nil => rfl
  | cons op ops ih =>
      rw [List.cons_append, session_cons, session_cons, ih, List.cons_append, reached_cons]

@[simp] theorem length_session (c : Cursor) (ops : List Operation) :
    (c.session ops).length = ops.length := by
  induction ops generalizing c with
  | nil => rfl
  | cons op ops ih => rw [session_cons, List.length_cons, List.length_cons, ih]

/-- The answer to an operation stands in the session where the operation stands. -/
theorem session_getElem? (c : Cursor) (before after : List Operation) (op : Operation) :
    (c.session (before ++ op :: after))[before.length]? =
      some (((c.reached before).perform op).1, (c.reached (before ++ [op])).mark) := by
  rw [session_append, List.getElem?_append_right (by rw [length_session]), length_session,
    Nat.sub_self, session_cons, reached_concat]
  rfl

/-- A cursor in the buffer `b`. -/
structure Within (b : Bytes) (c : Cursor) : Prop where
  buffer : c.buffer = b
  bound : c.mark.position ≤ b.length
  line : 1 ≤ c.mark.line

theorem within_ofBytes (b : Bytes) : (ofBytes b).Within b := ⟨rfl, Nat.zero_le _, Int.le_refl 1⟩

theorem Within.size (h : c.Within b) : c.size = b.length := congrArg List.length h.buffer

theorem Within.position_le (h : c.Within b) : c.mark.position ≤ c.size := by
  rw [h.size]
  exact h.bound

theorem Within.position_add_remaining (h : c.Within b) :
    c.mark.position + c.remaining = b.length := by
  rw [remaining, h.size]
  exact Nat.add_sub_cancel' h.bound

/-- Parsing does not go back to an earlier line. -/
theorem line_le_parse (d : Dialect) (tracing : Bool) (c : Cursor) :
    c.mark.line ≤ (c.parse d tracing).cursor.mark.line := by
  obtain ⟨before, after, -, hmark⟩ :=
    Reader.exists_mark_run d tracing c.mark (Utf8.glyphs c.rest)
  rw [← Reader.mark_readGlyphs] at hmark
  change c.mark.line ≤ (Reader.readGlyphs d tracing c.mark (Utf8.glyphs c.rest)).mark.line
  rw [hmark, Mark.line_after]
  exact Int.le_add_of_nonneg_right (Int.natCast_nonneg _)

/-! ## One operation -/

theorem Performs.precedes (h : c.Performs op (answer, c')) (hc : c.mark.position ≤ c.size) :
    c.Precedes c' := by
  cases h with
  | refused | short | stay | advanceLine => exact ⟨rfl, Nat.le_refl _, hc⟩
  | move v columns hdemand hle hwidth => exact ⟨rfl, Nat.le_add_right _ _, hwidth⟩
  | parse hd => exact precedes_parse _ _ hc

theorem Performs.line_le (h : c.Performs op (answer, c')) : c.mark.line ≤ c'.mark.line := by
  cases h with
  | refused | short | stay | move => exact Int.le_refl _
  | advanceLine => exact Int.le_add_one (Int.le_refl _)
  | parse hd => exact line_le_parse _ _ c

theorem Performs.within (h : c.Performs op (answer, c')) (hc : c.Within b) : c'.Within b := by
  have hnext := h.precedes hc.position_le
  refine ⟨hnext.buffer.trans hc.buffer, ?_, Int.le_trans hc.line h.line_le⟩
  rw [← hc.size, ← hnext.size]
  exact hnext.bound

/-- Two operations change the line. -/
theorem Performs.line_eq_or (h : c.Performs op (answer, c')) :
    c'.mark.line = c.mark.line ∨ op = .advanceLine ∨
      ∃ tokens tracing, op = .parse tokens tracing := by
  cases h with
  | refused | short | stay | move => exact .inl rfl
  | advanceLine => exact .inr (.inl rfl)
  | parse => exact .inr (.inr ⟨_, _, rfl⟩)

/-- A refusal leaves the cursor as it was. -/
theorem Performs.eq_of_error {e : Refusal} (h : c.Performs op (.error e, c')) : c' = c := by
  cases h <;> rfl

/-- An operation is refused for itself, or if it asks for more bytes than remain. -/
theorem Performs.error_iff (h : c.Performs op (answer, c')) (hc : c.mark.position ≤ c.size)
    (e : Refusal) :
    answer = .error e ↔ op.demand = .error e ∨ ∃ n, op.demand = .ok n ∧ c.remaining < n ∧
      e = .cursor (.boundary c.mark.position n c.size) := by
  -- What is done has asked for no more than remains.
  have hdone {op : Operation} {n : Nat} {r : Reply} (hdemand : op.demand = .ok n)
      (hle : c.mark.position + n ≤ c.size) :
      Except.ok r = .error e ↔ op.demand = .error e ∨ ∃ n, op.demand = .ok n ∧ c.remaining < n ∧
        e = .cursor (.boundary c.mark.position n c.size) := by
    refine ⟨nofun, ?_⟩
    rw [hdemand]
    rintro (hne | ⟨n', heq, hlt, -⟩)
    · cases hne
    · cases heq
      unfold remaining at hlt
      omega
  cases h with
  | refused hdemand =>
      rw [hdemand]
      constructor
      · intro h
        cases h
        exact .inl rfl
      · rintro (h | ⟨n, hn, -⟩)
        · cases h
          rfl
        · cases hn
  | @short _ n hdemand hlt =>
      rw [hdemand]
      constructor
      · intro h
        cases h
        refine .inr ⟨n, rfl, ?_, rfl⟩
        unfold remaining
        omega
      · rintro (h | ⟨n', hn, -, rfl⟩)
        · cases h
        · cases hn
          rfl
  | stay _ hdemand hle => exact hdone hdemand hle
  | move _ _ hdemand hle _ => exact hdone hdemand hle
  | advanceLine => exact hdone (n := 0) rfl hc
  | @parse tokens tracing d hd =>
      refine hdone (n := 0) ?_ hc
      rw [Operation.demand, hd]

/-- What can be seen can be taken and accepted. -/
theorem take_of_get {w : Want} {v : Value} (h : c.get w = .ok v) :
    ∃ width columns, width ≤ c.remaining ∧ c.take w = .ok (v, c.moved width columns) ∧
      ∀ expected, c.accept w expected = .ok (v.agrees expected,
        if v.agrees expected then c.moved width columns else c) := by
  have hlooks := looks c w
  rw [get_eq_map] at h
  rw [take_eq_map]
  cases hlook : c.look w with
  | error e =>
      rw [hlook] at h
      cases h
  | ok found =>
      rw [hlook] at h hlooks
      cases h
      cases hlooks with
      | found hdemand hle hwidth =>
          refine ⟨found.width, found.columns, Nat.le_sub_of_add_le' hwidth, rfl, fun expected => ?_⟩
          rw [accept_eq_map, hlook]
          rfl

/-! ## The whole session -/

theorem within_reached (hc : c.Within b) (ops : List Operation) : (c.reached ops).Within b := by
  induction ops generalizing c with
  | nil => exact hc
  | cons op ops ih => exact ih ((performs hc.position_le op).within hc)

/-- All through a session, whatever is done in it, the buffer stays as it is, the cursor stays
inside it, and neither the position nor the line goes back; only starting a line and parsing change
the line. An operation is refused exactly if it cannot be tried at all or asks for more bytes than
remain, and then the cursor is as before, also when it is changed in place. What can be seen can be
taken, and parsing is not refused. -/
theorem session_atomic_within_buffer (b : Bytes) (before after : List Operation) (op : Operation) :
    let c := (ofBytes b).reached before
    let c' := (ofBytes b).reached (before ++ [op])
    ∃ answer, ((ofBytes b).session (before ++ op :: after))[before.length]? =
        some (answer, c'.mark) ∧
      InPlace.perform op c = InPlace.ofAnswer (answer, c') ∧
      c.Within b ∧ c'.Within b ∧ c'.size = b.length ∧
      c'.mark.position + c'.remaining = b.length ∧
      c.mark.position ≤ c'.mark.position ∧ c.mark.line ≤ c'.mark.line ∧
      (c'.mark.line = c.mark.line ∨ op = .advanceLine ∨
        ∃ tokens tracing, op = .parse tokens tracing) ∧
      (∀ e, answer = .error e → c' = c) ∧
      (∀ e, answer = .error e ↔ op.demand = .error e ∨ ∃ n, op.demand = .ok n ∧
        c.remaining < n ∧ e = .cursor (.boundary c.mark.position n b.length)) ∧
      (∀ w v, c.get w = .ok v → ∃ width columns, width ≤ c.remaining ∧
        c.take w = .ok (v, c.moved width columns) ∧
        ∀ expected, c.accept w expected = .ok (v.agrees expected,
          if v.agrees expected then c.moved width columns else c)) ∧
      ∀ d, c.descend d = pure (c.parse d true) := by
  intro c c'
  have hc : c.Within b := within_reached (within_ofBytes b) before
  have hstep : c.Performs op ((c.perform op).1, c') := by
    rw [show c' = (c.perform op).2 from reached_concat _ before op]
    exact performs hc.position_le op
  have hc' : c'.Within b := hstep.within hc
  refine ⟨(c.perform op).1, session_getElem? _ before after op, ?_, hc, hc', hc'.size,
    hc'.position_add_remaining, (hstep.precedes hc.position_le).le, hstep.line_le,
    hstep.line_eq_or, ?_, ?_, fun w v => take_of_get,
    fun d => descend_eq d hc.position_le⟩
  · rw [show c' = (c.perform op).2 from reached_concat _ before op]
    exact InPlace.perform_eq op c
  · intro e he
    rw [he] at hstep
    exact hstep.eq_of_error
  · rw [← hc.size]
    exact hstep.error_iff hc.position_le

end Cursor

end SexpReader
