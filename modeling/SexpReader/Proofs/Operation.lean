import SexpReader.Cursor.Session
import SexpReader.Proofs.Ahead

/-!
# What an operation asks for and what it does

Before an operation does anything, it asks for a number of bytes: the count it moves over, the
width of the kind that is wanted, or one for a character. Some operations are refused whatever the
bytes are, and then they ask for none. `Operation.demand` tells the one or the other, and
`Cursor.Performs` lists all that can happen: an operation is refused, with the cursor as it was, or
it is done, and then it leaves the cursor, moves it within the buffer, starts a line or parses.

A character may be wider than the one byte that is asked for. It never reaches beyond the end of the
buffer, as its glyph is cut from what is left.
-/

namespace SexpReader

/-- The number of bytes that have to be there for what is wanted. -/
def Want.demand : Want → Except Cursor.Error Nat
  | .kind k => .ok k.width
  | .named name =>
    match Kind.ofName? name with
    | none => .error (.unknownKind name (Kind.all.map Kind.name))
    | some k => .ok k.width
  | .bytes count => if count < 0 then .error (.negativeCount count) else .ok count.toNat

/-- The number of bytes that have to be there for an operation. -/
def Operation.demand : Operation → Except Refusal Nat
  | .advance count _ =>
    if count < 0 then .error (.cursor (.negativeAdvance count)) else .ok count.toNat
  | .get want | .take want | .expect want _ | .accept want _ => want.demand.mapError .cursor
  | .parse tokens _ =>
    match Dialect.ofTokens tokens with
    | .error e => .error (.dialect e)
    | .ok _ => .ok 0
  | .position | .line | .column | .size | .remaining | .buffer | .print | .isEmpty
  | .advanceLine => .ok 0

namespace Cursor

variable {c : Cursor} {w : Want} {n : Nat}

theorem need_of_le (h : c.mark.position + n ≤ c.size) : c.need n = .ok () := if_pos h

theorem need_of_lt (h : c.size < c.mark.position + n) :
    c.need n = .error (.boundary c.mark.position n c.size) := if_neg (Nat.not_le.2 h)

theorem glyph?_of_lt (h : c.size < c.mark.position + 1) : c.glyph? = none := by
  have hrest : c.rest = [] := List.drop_eq_nil_of_le (Nat.le_of_lt_succ h)
  rw [glyph?, hrest]

/-- The glyph at a cursor lies before the end of the buffer. -/
theorem exists_glyph?_of_le (h : c.mark.position + 1 ≤ c.size) :
    ∃ g, c.glyph? = some g ∧ c.mark.position + g.bytes.length ≤ c.size := by
  cases hrest : c.rest with
  | nil =>
      have hend : c.size ≤ c.mark.position := List.drop_eq_nil_iff.1 hrest
      exact (Nat.not_succ_le_self _ (Nat.le_trans h hend)).elim
  | cons lead rest =>
      refine ⟨Utf8.glyph lead rest, by rw [glyph?, hrest], ?_⟩
      exact position_add_le_of_rest (Nat.le_of_succ_le h)
        (hrest.trans (Utf8.glyph_bytes_append_drop lead rest).symm)

/-- All that can come of looking for something. -/
inductive Looks (c : Cursor) (w : Want) : Except Error Found → Prop
  | refused {e : Error} (hdemand : w.demand = .error e) : Looks c w (.error e)
  | short {n : Nat} (hdemand : w.demand = .ok n) (hlt : c.size < c.mark.position + n) :
      Looks c w (.error (.boundary c.mark.position n c.size))
  | found {n : Nat} {found : Found} (hdemand : w.demand = .ok n)
      (hle : c.mark.position + n ≤ c.size) (hwidth : c.mark.position + found.width ≤ c.size) :
      Looks c w (.ok found)

theorem looks_fixed (hdemand : w.demand = .ok n) (value : Value) :
    Looks c w (do
      c.need n
      return ⟨value, n, n⟩) := by
  rcases Nat.lt_or_ge c.size (c.mark.position + n) with hlt | hle
  · rw [need_of_lt hlt]
    exact .short hdemand hlt
  · rw [need_of_le hle]
    exact .found hdemand hle hle

theorem looks_char (hdemand : w.demand = .ok 1) : Looks c w c.lookChar := by
  unfold lookChar
  rcases Nat.lt_or_ge c.size (c.mark.position + 1) with hlt | hle
  · rw [glyph?_of_lt hlt]
    exact .short hdemand hlt
  · obtain ⟨g, hg, hwidth⟩ := exists_glyph?_of_le hle
    rw [hg]
    exact .found hdemand hle hwidth

theorem looks_kind {k : Kind} (hdemand : w.demand = .ok k.width) : Looks c w (c.lookKind k) := by
  by_cases hk : k = .char
  · subst hk
    exact looks_char hdemand
  · rw [lookKind_of_ne_char c hk]
    exact looks_fixed hdemand _

theorem looks (c : Cursor) (w : Want) : Looks c w (c.look w) := by
  cases w with
  | kind k => exact looks_kind rfl
  | named name =>
      cases hk : Kind.ofName? name with
      | none =>
          have hdemand : (Want.named name).demand =
              .error (.unknownKind name (Kind.all.map Kind.name)) := by
            rw [Want.demand, hk]
          rw [look, hk]
          exact .refused hdemand
      | some k =>
          have hdemand : (Want.named name).demand = .ok k.width := by
            rw [Want.demand, hk]
          rw [look, hk]
          exact looks_kind hdemand
  | bytes count =>
      rw [look, lookBytes]
      split
      · next hneg => exact .refused (if_pos hneg)
      · next hnn => exact looks_fixed (w := .bytes count) (if_neg hnn) _

/-- All that can come of an operation: the answer and the cursor after it. -/
inductive Performs (c : Cursor) : Operation → Except Refusal Reply × Cursor → Prop
  | refused {op : Operation} {e : Refusal} (hdemand : op.demand = .error e) :
      Performs c op (.error e, c)
  | short {op : Operation} {n : Nat} (hdemand : op.demand = .ok n)
      (hlt : c.size < c.mark.position + n) :
      Performs c op (.error (.cursor (.boundary c.mark.position n c.size)), c)
  | stay {op : Operation} {n : Nat} (v : Value) (hdemand : op.demand = .ok n)
      (hle : c.mark.position + n ≤ c.size) :
      Performs c op (.ok (.value v), c)
  | move {op : Operation} {n width : Nat} (v : Value) (columns : Int) (hdemand : op.demand = .ok n)
      (hle : c.mark.position + n ≤ c.size) (hwidth : c.mark.position + width ≤ c.size) :
      Performs c op (.ok (.value v), c.moved width columns)
  | advanceLine : Performs c .advanceLine (.ok (.value .none), c.advanceLine)
  | parse {tokens : Tokens} {tracing : Bool} {d : Dialect} (hd : Dialect.ofTokens tokens = .ok d) :
      Performs c (.parse tokens tracing)
        (.ok (.parsed (c.parse d tracing)), (c.parse d tracing).cursor)

theorem performs_advance (c : Cursor) (count : Int) (columns : Option Int) :
    Performs c (.advance count columns)
      (c.settle ((c.advance count columns).map fun after => (.none, after))) := by
  unfold advance
  by_cases hcount : count < 0
  · rw [if_pos hcount]
    exact .refused (if_pos hcount)
  · have hdemand : (Operation.advance count columns).demand = .ok count.toNat := if_neg hcount
    rw [if_neg hcount]
    rcases Nat.lt_or_ge c.size (c.mark.position + count.toNat) with hlt | hle
    · rw [need_of_lt hlt]
      exact .short hdemand hlt
    · rw [need_of_le hle]
      exact .move _ _ hdemand hle hle

/-- An operation that looks for something does so first, and then stays or moves over it. -/
theorem Looks.performs {result : Except Error Found} (h : Looks c w result) {op : Operation}
    (hop : op.demand = w.demand.mapError .cursor) {f : Found → Value × Cursor}
    (hf : ∀ found, (f found).2 = c ∨ (f found).2 = c.moved found.width found.columns) :
    Performs c op (c.settle (result.map f)) := by
  cases h with
  | refused hdemand =>
      refine .refused ?_
      rw [hop, hdemand]
      rfl
  | short hdemand hlt =>
      refine .short ?_ hlt
      rw [hop, hdemand]
      rfl
  | @found n found hdemand hle hwidth =>
      have hdemand' : op.demand = .ok n := by
        rw [hop, hdemand]
        rfl
      change Performs c op (.ok (.value (f found).1), (f found).2)
      rcases hf found with h | h
      · rw [h]
        exact .stay _ hdemand' hle
      · rw [h]
        exact .move _ _ hdemand' hle hwidth

theorem get_eq_map (c : Cursor) (w : Want) : c.get w = (c.look w).map Found.value := by
  rw [get]
  cases c.look w <;> rfl

theorem take_eq_map (c : Cursor) (w : Want) :
    c.take w =
      (c.look w).map fun found => (found.value, c.moved found.width found.columns) := by
  rw [take]
  cases c.look w <;> rfl

theorem expect_eq_map (c : Cursor) (w : Want) (expected : Value) :
    c.expect w expected = (c.look w).map fun found => found.value.agrees expected := by
  rw [expect]
  cases c.look w <;> rfl

theorem accept_eq_map (c : Cursor) (w : Want) (expected : Value) :
    c.accept w expected = (c.look w).map fun found =>
      (found.value.agrees expected,
        if found.value.agrees expected then c.moved found.width found.columns else c) := by
  rw [accept]
  cases c.look w with
  | error e => rfl
  | ok found =>
      change (if found.value.agrees expected then _ else _) = Except.ok (_, if _ then _ else _)
      cases found.value.agrees expected <;> rfl

theorem performs (hc : c.mark.position ≤ c.size) (op : Operation) :
    Performs c op (c.perform op) := by
  cases op with
  | advance count columns => exact performs_advance c count columns
  | advanceLine => exact .advanceLine
  | get w =>
      have h : c.perform (.get w) = c.settle ((c.look w).map fun found => (found.value, c)) := by
        rw [perform, get_eq_map]
        cases c.look w <;> rfl
      rw [h]
      exact (looks c w).performs rfl fun _ => .inl rfl
  | take w =>
      rw [perform, take_eq_map]
      exact (looks c w).performs rfl fun _ => .inr rfl
  | expect w v =>
      have h : c.perform (.expect w v) =
          c.settle ((c.look w).map fun found => (.bool (found.value.agrees v), c)) := by
        rw [perform, expect_eq_map]
        cases c.look w <;> rfl
      rw [h]
      exact (looks c w).performs rfl fun _ => .inl rfl
  | accept w v =>
      have h : c.perform (.accept w v) = c.settle ((c.look w).map fun found =>
          (.bool (found.value.agrees v),
            if found.value.agrees v then c.moved found.width found.columns else c)) := by
        rw [perform, accept_eq_map]
        cases c.look w <;> rfl
      rw [h]
      refine (looks c w).performs rfl fun found => ?_
      dsimp only
      split
      · exact .inr rfl
      · exact .inl rfl
  | parse tokens tracing =>
      rw [perform]
      cases hd : Dialect.ofTokens tokens with
      | error e =>
          refine .refused ?_
          rw [Operation.demand, hd]
      | ok d => exact .parse hd
  | _ => exact .stay _ rfl hc

end Cursor

end SexpReader
