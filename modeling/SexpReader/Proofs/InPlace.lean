import SexpReader.Proofs.Operation

/-!
# Operations in place

A cursor may also be changed in place. An `InPlace` computation reads the cursor and changes it bit
by bit, and where it is refused, it keeps whatever has been changed by then. The operations are
written here in their small steps: what is wanted is found, which is refused if there are too few
bytes; then the cursor moves over it, and moving is refused if there are too few bytes.

So taking a value checks for its bytes twice, and it is not plain that a refusal changes nothing:
the second check comes after the value has been read, with the width that was found. What is found
never reaches beyond the end of the buffer, though, so the second check never fails, and the
operations in place do what the operations on cursors do.
-/

namespace SexpReader

/-- A computation that changes a cursor. A refusal keeps the changes made so far. -/
abbrev InPlace (α : Type) := EStateM Refusal Cursor α

namespace InPlace

variable {α β : Type}

/-- Refuses, with the cursor as it is. -/
def refuse (e : Cursor.Error) : InPlace α := throw (.cursor e)

/-- Refuses unless `count` bytes are left. -/
def check (count : Nat) : InPlace Unit := do
  let c ← get
  if c.size < c.mark.position + count then
    refuse (.boundary c.mark.position count c.size)

/-- Moves over `count` bytes, first the position and then the column. -/
def advance (count : Int) (columns : Option Int) : InPlace Unit := do
  if count < 0 then refuse (.negativeAdvance count)
  check count.toNat
  modify fun c => { c with mark.position := c.mark.position + count.toNat }
  modify fun c => { c with mark.column := c.mark.column + columns.getD count }

/-- Starts a new line. -/
def advanceLine : InPlace Unit := do
  modify fun c => { c with mark.line := c.mark.line + 1 }
  modify fun c => { c with mark.column := 1 }

/-- Finds a value that takes `width` bytes. -/
def lookFixed (width : Nat) (value : Bytes → Value) : InPlace Found := do
  check width
  let c ← get
  return ⟨value (c.rest.take width), width, width⟩

/-- Finds a character. One byte has to be there; how many there are, is known when they have been
decoded. -/
def lookChar : InPlace Found := do
  check 1
  let c ← get
  match c.glyph? with
  | none => refuse (.boundary c.mark.position 1 c.size)
  | some g => return ⟨.text [g.char], g.bytes.length, 1⟩

/-- Finds a value of some kind. -/
def lookKind (k : Kind) : InPlace Found :=
  if k = .char then lookChar else lookFixed k.width k.decode

/-- Finds what is wanted. -/
def look : Want → InPlace Found
  | .kind k => lookKind k
  | .named name =>
    match Kind.ofName? name with
    | none => refuse (.unknownKind name (Kind.all.map Kind.name))
    | some k => lookKind k
  | .bytes count => do
    if count < 0 then refuse (.negativeCount count)
    lookFixed count.toNat .bytes

/-- Finds what is wanted, and then moves over it. -/
def take (w : Want) : InPlace Value := do
  let found ← look w
  advance found.width (some found.columns)
  return found.value

/-- Finds what is wanted, and moves over it if it is the expected value. -/
def accept (w : Want) (expected : Value) : InPlace Bool := do
  let found ← look w
  if found.value.agrees expected then
    advance found.width (some found.columns)
    return true
  else return false

/-- Does one thing. -/
def perform : Operation → InPlace Reply
  | .position => return .value (.int (← get).mark.position)
  | .line => return .value (.int (← get).mark.line)
  | .column => return .value (.int (← get).mark.column)
  | .size => return .value (.int (← get).size)
  | .remaining => return .value (.int (← get).remaining)
  | .buffer => return .value (.bytes (← get).buffer)
  | .print => return .value (.text (← get).print)
  | .isEmpty => return .value (.bool (← get).isEmpty)
  | .advance count columns => do
    advance count columns
    return .value .none
  | .advanceLine => do
    advanceLine
    return .value .none
  | .get want => return .value (← look want).value
  | .take want => return .value (← take want)
  | .expect want expected => return .value (.bool ((← look want).value.agrees expected))
  | .accept want expected => return .value (.bool (← accept want expected))
  | .parse tokens tracing =>
    match Dialect.ofTokens tokens with
    | .error e => throw (.dialect e)
    | .ok d => do
      let p := (← get).parse d tracing
      set p.cursor
      return .parsed p

/-! ## The same without changing in place -/

/-- The result of a computation on the cursor `c` that says where the cursor goes if it is not
refused. -/
def ofExcept (c : Cursor) : Except Cursor.Error (α × Cursor) → EStateM.Result Refusal Cursor α
  | .ok (a, c') => .ok a c'
  | .error e => .error (.cursor e) c

theorem bind_of_ok {x : InPlace α} {f : α → InPlace β} {c c' : Cursor} {a : α}
    (h : x c = .ok a c') : (x >>= f) c = f a c' := by
  change EStateM.bind x f c = _
  rw [EStateM.bind, h]

theorem bind_of_error {x : InPlace α} {f : α → InPlace β} {c c' : Cursor} {e : Refusal}
    (h : x c = .error e c') : (x >>= f) c = .error e c' := by
  change EStateM.bind x f c = _
  rw [EStateM.bind, h]

/-- One computation after the other, if the first leaves the cursor. -/
theorem bind_eq {x : InPlace α} {f : α → InPlace β} {c : Cursor} {r : Except Cursor.Error α}
    {g : α → Except Cursor.Error (β × Cursor)} (hx : x c = ofExcept c (r.map fun a => (a, c)))
    (hf : ∀ a, r = .ok a → f a c = ofExcept c (g a)) : (x >>= f) c = ofExcept c (r >>= g) := by
  cases r with
  | error e => exact bind_of_error hx
  | ok a => exact (bind_of_ok hx).trans (hf a rfl)

theorem check_eq (count : Nat) (c : Cursor) :
    check count c = ofExcept c ((c.need count).map fun _ => ((), c)) := by
  change (if c.size < c.mark.position + count then _ else _ : InPlace Unit) c = _
  unfold Cursor.need
  by_cases h : c.mark.position + count ≤ c.size
  · rw [if_neg (Nat.not_lt.2 h), if_pos h]
    rfl
  · rw [if_pos (Nat.lt_of_not_le h), if_neg h]
    rfl

theorem advance_eq (count : Int) (columns : Option Int) (c : Cursor) :
    advance count columns c =
      ofExcept c ((c.advance count columns).map fun after => ((), after)) := by
  unfold advance Cursor.advance
  by_cases hcount : count < 0
  · rw [if_pos hcount, if_pos hcount]
    rfl
  · rw [if_neg hcount, if_neg hcount]
    have hcheck := check_eq count.toNat c
    cases hneed : c.need count.toNat with
    | error e =>
        rw [hneed] at hcheck
        exact bind_of_error hcheck
    | ok u =>
        rw [hneed] at hcheck
        exact bind_of_ok hcheck

theorem lookFixed_eq (width : Nat) (value : Bytes → Value) (c : Cursor) :
    lookFixed width value c =
      ofExcept c ((c.need width).map fun _ => (⟨value (c.rest.take width), width, width⟩, c)) := by
  have hcheck := check_eq width c
  unfold lookFixed
  cases hneed : c.need width with
  | error e =>
      rw [hneed] at hcheck
      exact bind_of_error hcheck
  | ok u =>
      rw [hneed] at hcheck
      exact bind_of_ok hcheck

theorem lookChar_eq (c : Cursor) :
    lookChar c = ofExcept c (c.lookChar.map fun found => (found, c)) := by
  have hcheck := check_eq 1 c
  unfold lookChar Cursor.lookChar
  rcases Nat.lt_or_ge c.size (c.mark.position + 1) with hlt | hle
  · rw [Cursor.need_of_lt hlt] at hcheck
    rw [Cursor.glyph?_of_lt hlt]
    exact bind_of_error hcheck
  · rw [Cursor.need_of_le hle] at hcheck
    refine (bind_of_ok hcheck).trans ?_
    change (match c.glyph? with | none => _ | some g => _ : InPlace Found) c = _
    cases c.glyph? <;> rfl

theorem lookKind_eq (k : Kind) (c : Cursor) :
    lookKind k c = ofExcept c ((c.lookKind k).map fun found => (found, c)) := by
  unfold lookKind
  by_cases hk : k = .char
  · rw [if_pos hk, hk]
    exact lookChar_eq c
  · rw [if_neg hk, lookFixed_eq, Cursor.lookKind_of_ne_char c hk]
    cases c.need k.width <;> rfl

theorem look_eq (w : Want) (c : Cursor) :
    look w c = ofExcept c ((c.look w).map fun found => (found, c)) := by
  cases w with
  | kind k => exact lookKind_eq k c
  | named name =>
      rw [look, Cursor.look]
      cases Kind.ofName? name with
      | none => rfl
      | some k => exact lookKind_eq k c
  | bytes count =>
      change (if count < 0 then _ else _ : InPlace Found) c = ofExcept c ((c.lookBytes count).map _)
      unfold Cursor.lookBytes
      by_cases hcount : count < 0
      · rw [if_pos hcount, if_pos hcount]
        rfl
      · rw [if_neg hcount, if_neg hcount]
        refine (lookFixed_eq count.toNat .bytes c).trans ?_
        cases c.need count.toNat <;> rfl

/-- Moving over what has been found is not refused. -/
theorem advance_of_look {w : Want} {c : Cursor} {found : Found} (h : c.look w = .ok found) :
    advance found.width (some found.columns) c = .ok () (c.moved found.width found.columns) := by
  have hwidth : c.mark.position + found.width ≤ c.size := by
    have hlooks := Cursor.looks c w
    rw [h] at hlooks
    cases hlooks with
    | found _ _ hwidth => exact hwidth
  rw [advance_eq, Cursor.advance, if_neg (Int.not_lt.2 (Int.natCast_nonneg _)), Int.toNat_natCast,
    Cursor.need_of_le hwidth]
  rfl

/-! ## Finding and moving -/

variable {x : InPlace α} {value : α → Value} {count : α → Int} {columns : α → Option Int}
  {c : Cursor} {w : Want}

/-- A computation that finds what is wanted: from what it gives come the value and how far to move
over it. -/
structure Finds (x : InPlace α) (value : α → Value) (count : α → Int) (columns : α → Option Int)
    (c : Cursor) (w : Want) : Prop where
  refused : ∀ e, c.look w = .error e → x c = .error (.cursor e) c
  found : ∀ f, c.look w = .ok f → ∃ a, x c = .ok a c ∧ value a = f.value ∧ count a = f.width ∧
    (columns a).getD (count a) = f.columns

theorem Finds.moves (h : Finds x value count columns c w) {f : Found} (hf : c.look w = .ok f) :
    ∃ a, x c = .ok a c ∧ value a = f.value ∧
      advance (count a) (columns a) c = .ok () (c.moved f.width f.columns) := by
  obtain ⟨a, hx, hvalue, hcount, hcolumns⟩ := h.found f hf
  refine ⟨a, hx, hvalue, ?_⟩
  rw [← advance_of_look hf, ← hcolumns, ← hcount]
  rfl

theorem Finds.get_eq (h : Finds x value count columns c w) :
    (do return value (← x) : InPlace Value) c = ofExcept c ((c.get w).map fun v => (v, c)) := by
  rw [c.get_eq_map]
  cases hlook : c.look w with
  | error e => exact bind_of_error (h.refused e hlook)
  | ok f =>
      obtain ⟨a, hx, hvalue, -⟩ := h.found f hlook
      refine (bind_of_ok hx).trans ?_
      rw [hvalue]
      rfl

theorem Finds.take_eq (h : Finds x value count columns c w) :
    (do
      let a ← x
      advance (count a) (columns a)
      return value a : InPlace Value) c = ofExcept c (c.take w) := by
  rw [c.take_eq_map]
  cases hlook : c.look w with
  | error e => exact bind_of_error (h.refused e hlook)
  | ok f =>
      -- The second check is for the width that was found, and so it does not fail.
      obtain ⟨a, hx, hvalue, hadvance⟩ := h.moves hlook
      refine (bind_of_ok hx).trans ((bind_of_ok hadvance).trans ?_)
      rw [hvalue]
      rfl

theorem Finds.accept_eq (h : Finds x value count columns c w) (expected : Value) :
    (do
      let a ← x
      if (value a).agrees expected then
        advance (count a) (columns a)
        return true
      else return false : InPlace Bool) c = ofExcept c (c.accept w expected) := by
  rw [c.accept_eq_map]
  cases hlook : c.look w with
  | error e => exact bind_of_error (h.refused e hlook)
  | ok f =>
      obtain ⟨a, hx, hvalue, hadvance⟩ := h.moves hlook
      refine (bind_of_ok hx).trans ?_
      rw [hvalue]
      change _ = EStateM.Result.ok _ (if _ then _ else _)
      cases hagrees : f.value.agrees expected with
      | false => rfl
      | true => exact bind_of_ok hadvance

theorem finds_of_eq {x : InPlace Found} {columns : Found → Option Int}
    (hx : x c = ofExcept c ((c.look w).map fun found => (found, c)))
    (hcolumns : ∀ f, c.look w = .ok f → (columns f).getD f.width = f.columns) :
    Finds x Found.value (fun found => found.width) columns c w := by
  constructor
  · intro e he
    rw [hx, he]
    rfl
  · intro f hf
    rw [hf] at hx
    exact ⟨f, hx, rfl, rfl, hcolumns f hf⟩

theorem finds_look (w : Want) (c : Cursor) :
    Finds (look w) Found.value (fun found => found.width) (fun found => some found.columns) c w :=
  finds_of_eq (look_eq w c) fun _ _ => rfl

theorem take_eq (w : Want) (c : Cursor) : take w c = ofExcept c (c.take w) :=
  (finds_look w c).take_eq

theorem accept_eq (w : Want) (expected : Value) (c : Cursor) :
    accept w expected c = ofExcept c (c.accept w expected) :=
  (finds_look w c).accept_eq expected

/-- The result of an operation with its answer and the cursor after it. -/
def ofAnswer : Except Refusal Reply × Cursor → EStateM.Result Refusal Cursor Reply
  | (.ok r, c) => .ok r c
  | (.error e, c) => .error e c

/-- A computation that is followed by nothing but its answer. -/
theorem bind_value {x : InPlace α} {c : Cursor} {result : Except Cursor.Error (α × Cursor)}
    (h : x c = ofExcept c result) (f : α → Value) :
    (x >>= fun a => pure (.value (f a))) c =
      ofAnswer (c.settle (result.map fun (a, after) => (f a, after))) := by
  cases result with
  | error e => exact bind_of_error h
  | ok r => exact bind_of_ok h

/-- An operation in place answers what the operation on the cursor answers, and leaves the cursor
that comes of it. -/
theorem perform_eq (op : Operation) (c : Cursor) : perform op c = ofAnswer (c.perform op) := by
  cases op with
  | advance count columns =>
      refine (bind_value (advance_eq count columns c) fun _ => .none).trans ?_
      rw [Cursor.perform]
      cases c.advance count columns <;> rfl
  | get w =>
      refine (bind_value (look_eq w c) Found.value).trans ?_
      rw [Cursor.perform, Cursor.get_eq_map]
      cases c.look w <;> rfl
  | take w =>
      refine (bind_value (take_eq w c) id).trans ?_
      rw [Cursor.perform]
      cases c.take w <;> rfl
  | expect w v =>
      refine (bind_value (look_eq w c) fun found => .bool (found.value.agrees v)).trans ?_
      rw [Cursor.perform, Cursor.expect_eq_map]
      cases c.look w <;> rfl
  | accept w v => exact bind_value (accept_eq w v c) .bool
  | parse tokens tracing =>
      rw [perform, Cursor.perform]
      cases Dialect.ofTokens tokens <;> rfl
  | _ => rfl

end InPlace

end SexpReader
