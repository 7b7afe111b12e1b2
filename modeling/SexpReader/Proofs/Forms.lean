import SexpReader.Proofs.Comparison
import SexpReader.Proofs.InPlace

/-!
# The forms of reading, call by call

There are four forms of reading a value: `get`, `take`, `expect` and `accept`. Each of them can be
called with the name of a kind or by a call of its own for each kind, and raw bytes have further
calls. A `Call` is one of these, and `Call.run` says what it does in place.

The calls are not written alike. A character is decoded before its width is known and counts as one
column, and so it goes its own way in three of the forms; a value of fixed width is unpacked by its
name, and then the cursor moves by the width that goes with the name; raw bytes are cut out, and
accepting them calls what expects them. `InPlace.Finds` is what all of them have in common: whatever
they find, they find what looking for it finds, and they move as far. Hence each call does what the
operation does, in all four forms.

Raw bytes are an exception in two ways. They have no name, so there are only their own calls. And
what they are expected to be is turned into bytes before it is compared: it need not be bytes itself,
and if it has no length or no bytes, the comparison is refused.
-/

namespace SexpReader

theorem Kind.name_of_ofName? {name : Text} {k : Kind} (h : ofName? name = some k) :
    k.name = name := by
  unfold ofName? at h
  have hname := List.find?_some h
  exact eq_of_beq hname

theorem Kind.name_ne_char {k : Kind} (hk : k ≠ .char) : k.name ≠ char.name := by
  intro h
  have hname := congrArg ofName? h
  rw [ofName?_name, ofName?_name] at hname
  exact hk (Option.some.inj hname)

/-- One of the four forms of reading, with the expected value if there is one. -/
inductive Form where
  | get
  | take
  | expect (expected : Value)
  | accept (expected : Value)

/-- Reading in some form what is wanted. -/
def Form.on (w : Want) : Form → Operation
  | get => .get w
  | take => .take w
  | expect v => .expect w v
  | accept v => .accept w v

/-- A call that reads a value. -/
inductive Call where
  | generic (form : Form) (name : Text)
  | typed (form : Form) (k : Kind)
  | getBytes (count : Int)
  | takeBytes (count : Int)
  | expectBytes (x : Expected)
  | acceptBytes (x : Expected)

namespace Cursor

variable {c : Cursor} {w : Want}

/-- The bytes and the columns that a value of some kind takes. A character takes those of its glyph
and one column. -/
def extent (c : Cursor) : Kind → Nat × Nat
  | .char => (((c.glyph?.map Glyph.bytes).getD []).length, 1)
  | .byte | .int8 | .uint8 => (1, 1)
  | .int16 | .uint16 => (2, 2)
  | .int32 | .uint32 | .float32 => (4, 4)
  | .int64 | .uint64 | .float64 => (8, 8)

/-- The cursor behind a number of bytes that take a number of columns. -/
def behind (c : Cursor) (extent : Nat × Nat) : Cursor :=
  ⟨c.buffer, c.mark.position + extent.1, c.mark.line, c.mark.column + extent.2⟩

/-- What a call comes to on a cursor that is not changed in place. -/
def answer (c : Cursor) : Call → Except Refusal Reply × Cursor
  | .generic form name => c.perform (form.on (.named name))
  | .typed form k => c.perform (form.on (.kind k))
  | .getBytes count => c.perform (.get (.bytes count))
  | .takeBytes count => c.perform (.take (.bytes count))
  | .expectBytes x => c.settle ((c.expectBytes x).map fun b => (.bool b, c))
  | .acceptBytes x => c.settle ((c.acceptBytes x).map fun (b, after) => (.bool b, after))

theorem eq_of_need {α : Type} {n : Nat} {a b : α}
    (h : (do
      c.need n
      return a : Except Error α) = .ok b) : a = b := by
  cases hneed : c.need n with
  | error e =>
      rw [hneed] at h
      cases h
  | ok u =>
      rw [hneed] at h
      exact Except.ok.inj h

theorem exists_glyph?_of_lookChar {f : Found} (h : c.lookChar = .ok f) :
    ∃ g, c.glyph? = some g ∧ f = ⟨.text [g.char], g.bytes.length, 1⟩ := by
  unfold lookChar at h
  cases hg : c.glyph? with
  | none =>
      rw [hg] at h
      cases h
  | some g =>
      rw [hg] at h
      exact ⟨g, rfl, (Except.ok.inj h).symm⟩

/-- What is found reaches as far as the value does. -/
theorem extent_of_lookKind {k : Kind} {f : Found} (h : c.lookKind k = .ok f) :
    c.extent k = (f.width, f.columns) := by
  cases k with
  | char =>
      obtain ⟨g, hg, rfl⟩ := exists_glyph?_of_lookChar h
      rw [extent, hg]
      rfl
  | _ => rw [← eq_of_need h]; rfl

/-- The character that is found, and the bytes that it takes, are those decoded at the offset. -/
theorem glyphAt_of_lookChar {f : Found} (hsize : c.size ≤ Index.limit) (h : c.lookChar = .ok f) :
    ∃ x, f.value = .text [x] ∧
      Utf8.glyphAt c.buffer c.mark.position = .ok (x, (c.extent .char).1) := by
  obtain ⟨g, hg, rfl⟩ := exists_glyph?_of_lookChar h
  refine ⟨g.char, rfl, ?_⟩
  rw [extent, hg]
  rw [glyph?] at hg
  cases hrest : c.rest with
  | nil =>
      rw [hrest] at hg
      cases hg
  | cons lead rest =>
      rw [hrest] at hg
      have hglyphs := Utf8.glyphs_cons lead rest
      rw [← hrest, Option.some.inj hg] at hglyphs
      exact Utf8.glyphAt_of_glyphs_drop hsize hglyphs

/-- A value is found unless there are too few bytes. -/
theorem lookKind_cases (c : Cursor) (k : Kind) :
    (c.size < c.mark.position + k.width ∧
      c.lookKind k = .error (.boundary c.mark.position k.width c.size)) ∨
    ∃ f, c.lookKind k = .ok f ∧ c.mark.position + f.width ≤ c.size := by
  have hlooks : Looks c (.kind k) (c.lookKind k) := looks_kind rfl
  cases hlook : c.lookKind k with
  | error e =>
      rw [hlook] at hlooks
      cases hlooks with
      | refused hdemand => cases hdemand
      | short hdemand hlt =>
          cases hdemand
          exact .inl ⟨hlt, rfl⟩
  | ok f =>
      rw [hlook] at hlooks
      cases hlooks with
      | found _ _ hwidth => exact .inr ⟨f, rfl, hwidth⟩

/-- As many raw bytes are found as are wanted, unless their number is negative or there are too
few. -/
theorem lookBytes_cases (c : Cursor) (count : Int) :
    (∃ e, c.lookBytes count = .error e ∧ (count < 0 ∧ e = .negativeCount count ∨
      c.size < c.mark.position + count.toNat ∧
        e = .boundary c.mark.position count.toNat c.size)) ∨
    ∃ read : Bytes, (read.length : Int) = count ∧ c.mark.position + read.length ≤ c.size ∧
      c.lookBytes count = .ok ⟨.bytes read, read.length, read.length⟩ := by
  unfold lookBytes
  by_cases hcount : count < 0
  · rw [if_pos hcount]
    exact .inl ⟨_, rfl, .inl ⟨hcount, rfl⟩⟩
  · rw [if_neg hcount]
    rcases Nat.lt_or_ge c.size (c.mark.position + count.toNat) with hlt | hle
    · rw [need_of_lt hlt]
      exact .inl ⟨_, rfl, .inr ⟨hlt, rfl⟩⟩
    · have hlength : (c.rest.take count.toNat).length = count.toNat := by
        rw [List.length_take_of_le]
        rw [rest, List.length_drop]
        exact Nat.le_sub_of_add_le' hle
      refine .inr ⟨c.rest.take count.toNat, ?_, ?_, ?_⟩
      · rw [hlength, Int.toNat_of_nonneg (Int.not_lt.1 hcount)]
      · rw [hlength]
        exact hle
      · rw [need_of_le hle, hlength]
        rfl

theorem exists_bytes_of_lookBytes {count : Int} {f : Found} (h : c.lookBytes count = .ok f) :
    ∃ read : Bytes, (read.length : Int) = count ∧ f = ⟨.bytes read, read.length, read.length⟩ := by
  obtain ⟨e, he, -⟩ | ⟨read, hlength, -, hread⟩ := c.lookBytes_cases count
  · cases h.symm.trans he
  · exact ⟨read, hlength, Except.ok.inj (h.symm.trans hread)⟩

variable {x : Expected} {s : Sized}

theorem expectBytes_of_sized (hx : x.sized = .ok s) : c.expectBytes x = do
    let read ← c.get (.bytes s.length)
    let bs ← s.bytes
    return read.agrees (.bytes bs) := by
  rw [expectBytes, hx]
  rfl

theorem acceptBytes_of_sized (hx : x.sized = .ok s) : c.acceptBytes x =
    (c.expectBytes x).map fun b => (b, if b then c.moved s.length s.length else c) := by
  rw [acceptBytes, hx]
  cases c.expectBytes x with
  | error e => rfl
  | ok b => cases b <;> rfl

/-- Before raw bytes are compared, as many have been read as are expected. -/
theorem exists_look_of_expectBytes {b : Bool} (hx : x.sized = .ok s)
    (h : c.expectBytes x = .ok b) : ∃ f, c.look (.bytes s.length) = .ok f := by
  rw [expectBytes_of_sized hx, get_eq_map] at h
  cases hlook : c.look (.bytes s.length) with
  | error e =>
      rw [hlook] at h
      cases h
  | ok f => exact ⟨f, rfl⟩

end Cursor

namespace InPlace

/-! ## The calls as they are written -/

/-- The width that goes with the name of a kind. It is asked for only after the name was found. -/
def widthOf (name : Text) : Nat := ((Kind.ofName? name).map Kind.width).getD 0

/-- A value of fixed width. A character has none, so its name is refused as well. -/
def unpack (name : Text) : InPlace Value :=
  match (Kind.ofName? name).filter (· ≠ .char) with
  | none => refuse (.unknownKind name (Kind.all.map Kind.name))
  | some k => return (← lookFixed k.width k.decode).value

def getChar : InPlace Value := return (← lookChar).value

def takeChar : InPlace Value := do
  let found ← lookChar
  advance found.width (some 1)
  return found.value

def expectChar (expected : Value) : InPlace Bool := return (← getChar).agrees expected

def getByName (name : Text) : InPlace Value :=
  if name = Kind.char.name then getChar else unpack name

def takeByName (name : Text) : InPlace Value :=
  if name = Kind.char.name then takeChar
  else do
    let value ← unpack name
    advance (widthOf name) none
    return value

def expectByName (name : Text) (expected : Value) : InPlace Bool :=
  return (← getByName name).agrees expected

def acceptByName (name : Text) (expected : Value) : InPlace Bool :=
  if name = Kind.char.name then do
    let found ← lookChar
    if found.value.agrees expected then
      advance found.width (some 1)
      return true
    else return false
  else do
    if (← unpack name).agrees expected then
      advance (widthOf name) none
      return true
    else return false

def getBytes (count : Int) : InPlace Value := do
  if count < 0 then refuse (.negativeCount count)
  return (← lookFixed count.toNat .bytes).value

def takeBytes (count : Int) : InPlace Value := do
  let value ← getBytes count
  advance count none
  return value

/-- A value, or the refusal that there is in its place. -/
def of {α : Type} : Except Cursor.Error α → InPlace α
  | .ok a => return a
  | .error e => refuse e

def expectBytes (x : Expected) : InPlace Bool := do
  let expected ← of x.sized
  let read ← getBytes expected.length
  let bs ← of expected.bytes
  return read.agrees (.bytes bs)

def acceptBytes (x : Expected) : InPlace Bool := do
  if ← expectBytes x then
    let expected ← of x.sized
    advance expected.length none
    return true
  else return false

end InPlace

namespace Call

open InPlace

/-- What a call does to the cursor. -/
def run : Call → InPlace Reply
  | generic .get name => return .value (← getByName name)
  | generic .take name => return .value (← takeByName name)
  | generic (.expect v) name => return .value (.bool (← expectByName name v))
  | generic (.accept v) name => return .value (.bool (← acceptByName name v))
  | typed .get .char => return .value (← getChar)
  | typed .get k => return .value (← unpack k.name)
  | typed .take .char => return .value (← takeChar)
  | typed .take k => return .value (← takeByName k.name)
  | typed (.expect v) .char => return .value (.bool (← expectChar v))
  | typed (.expect v) k => return .value (.bool (← expectByName k.name v))
  | typed (.accept v) k => return .value (.bool (← acceptByName k.name v))
  | getBytes count => return .value (← InPlace.getBytes count)
  | takeBytes count => return .value (← InPlace.takeBytes count)
  | expectBytes x => return .value (.bool (← InPlace.expectBytes x))
  | acceptBytes x => return .value (.bool (← InPlace.acceptBytes x))

end Call

namespace InPlace

/-! ## What the calls find -/

variable {α : Type} {value : α → Value} {count : α → Int} {columns : α → Option Int} {c : Cursor}
  {w : Want}

theorem finds_lookChar (hw : w.Names .char) (c : Cursor) :
    Finds lookChar Found.value (fun found => found.width) (fun _ => some 1) c w := by
  have hlook : c.look w = c.lookChar := Cursor.look_of_names hw c
  apply finds_of_eq
  · rw [hlook]
    exact lookChar_eq c
  · intro f hf
    obtain ⟨g, -, rfl⟩ := Cursor.exists_glyph?_of_lookChar (hlook.symm.trans hf)
    rfl

theorem finds_refuse {e : Cursor.Error} (hlook : c.look w = .error e) :
    Finds (refuse e) value count columns c w := by
  constructor
  · intro e' he
    cases hlook.symm.trans he
    rfl
  · intro f hf
    cases hlook.symm.trans hf

theorem finds_lookFixed {width : Nat} {decode : Bytes → Value}
    (hlook : c.look w = do
      c.need width
      return ⟨decode (c.rest.take width), width, width⟩) :
    Finds (do return (← lookFixed width decode).value) id (fun _ => width) (fun _ => none) c w := by
  have hfixed := lookFixed_eq width decode c
  cases hneed : c.need width with
  | error e =>
      rw [hneed] at hlook hfixed
      constructor
      · intro e' he
        cases hlook.symm.trans he
        exact bind_of_error hfixed
      · intro f hf
        cases hlook.symm.trans hf
  | ok u =>
      rw [hneed] at hlook hfixed
      constructor
      · intro e he
        cases hlook.symm.trans he
      · intro f hf
        cases hlook.symm.trans hf
        exact ⟨_, bind_of_ok hfixed, rfl, rfl, rfl⟩

/-- A name of fixed width is unpacked, and a name of no kind is refused. -/
theorem finds_unpack {name : Text} (hname : name ≠ Kind.char.name) (c : Cursor) :
    Finds (unpack name) id (fun _ => widthOf name) (fun _ => none) c (.named name) := by
  rw [unpack, widthOf]
  cases hk : Kind.ofName? name with
  | none =>
      refine finds_refuse ?_
      rw [Cursor.look, hk]
  | some k =>
      have hne : k ≠ .char := by
        rintro rfl
        exact hname (Kind.name_of_ofName? hk).symm
      rw [Option.filter_some, if_pos (decide_eq_true hne)]
      refine finds_lookFixed ?_
      rw [Cursor.look, hk]
      exact c.lookKind_of_ne_char hne

theorem finds_getBytes (count : Int) (c : Cursor) :
    Finds (getBytes count) id (fun _ => count) (fun _ => none) c (.bytes count) := by
  change Finds (if count < 0 then _ else _ : InPlace Value) _ _ _ _ _
  by_cases hcount : count < 0
  · rw [if_pos hcount]
    exact finds_refuse (if_pos hcount)
  · have hwidth : (count.toNat : Int) = count := Int.toNat_of_nonneg (Int.not_lt.1 hcount)
    rw [if_neg hcount]
    have hfinds : Finds (do return (← lookFixed count.toNat .bytes).value) id
        (fun _ => (count.toNat : Int)) (fun _ => none) c (.bytes count) :=
      finds_lookFixed (if_neg hcount)
    rw [hwidth] at hfinds
    exact hfinds

/-- Expecting a value gets it first. -/
theorem expect_eq {x : InPlace Value} (h : x c = ofExcept c ((c.get w).map fun v => (v, c)))
    (expected : Value) : (do return (← x).agrees expected : InPlace Bool) c =
      ofExcept c ((c.expect w expected).map fun b => (b, c)) := by
  rw [c.get_eq_map] at h
  rw [c.expect_eq_map]
  cases hlook : c.look w with
  | error e =>
      rw [hlook] at h
      exact bind_of_error h
  | ok f =>
      rw [hlook] at h
      exact bind_of_ok h

theorem getByName_eq (name : Text) (c : Cursor) :
    getByName name c = ofExcept c ((c.get (.named name)).map fun v => (v, c)) := by
  unfold getByName
  split
  · rename_i hname
    exact (finds_lookChar (.inr (hname ▸ rfl)) c).get_eq
  · rename_i hname
    rw [← (finds_unpack hname c).get_eq]
    exact congrFun (bind_pure (unpack name)).symm c

theorem takeByName_eq (name : Text) (c : Cursor) :
    takeByName name c = ofExcept c (c.take (.named name)) := by
  unfold takeByName
  split
  · rename_i hname
    exact (finds_lookChar (.inr (hname ▸ rfl)) c).take_eq
  · rename_i hname
    exact (finds_unpack hname c).take_eq

theorem acceptByName_eq (name : Text) (expected : Value) (c : Cursor) :
    acceptByName name expected c = ofExcept c (c.accept (.named name) expected) := by
  unfold acceptByName
  split
  · rename_i hname
    exact (finds_lookChar (.inr (hname ▸ rfl)) c).accept_eq expected
  · rename_i hname
    exact (finds_unpack hname c).accept_eq expected

theorem getBytes_eq (count : Int) (c : Cursor) :
    getBytes count c = ofExcept c ((c.get (.bytes count)).map fun v => (v, c)) := by
  rw [← (finds_getBytes count c).get_eq]
  exact congrFun (bind_pure (getBytes count)).symm c

theorem of_eq {α : Type} (r : Except Cursor.Error α) (c : Cursor) :
    of r c = ofExcept c (r.map fun a => (a, c)) := by
  cases r <;> rfl

theorem expectBytes_eq (x : Expected) (c : Cursor) :
    expectBytes x c = ofExcept c ((c.expectBytes x).map fun b => (b, c)) := by
  have hrun : expectBytes x c = ofExcept c (do
      let expected ← x.sized
      let read ← c.get (.bytes expected.length)
      let bs ← expected.bytes
      return (read.agrees (.bytes bs), c)) := by
    refine bind_eq (of_eq x.sized c) fun expected _ => ?_
    refine bind_eq (getBytes_eq expected.length c) fun read _ => ?_
    exact bind_eq (of_eq expected.bytes c) fun bs _ => rfl
  rw [hrun]
  change _ = ofExcept c ((fun b => (b, c)) <$> c.expectBytes x)
  simp only [Cursor.expectBytes, map_bind, map_pure]

theorem acceptBytes_eq (x : Expected) (c : Cursor) :
    acceptBytes x c = ofExcept c (c.acceptBytes x) := by
  refine bind_eq (expectBytes_eq x c) fun b hb => ?_
  cases b with
  | false => rfl
  | true =>
      refine bind_eq (of_eq x.sized c) fun expected hx => ?_
      -- So many bytes have been read already, and so there are enough to move over.
      obtain ⟨f, hf⟩ := Cursor.exists_look_of_expectBytes hx hb
      obtain ⟨read, hlength, rfl⟩ := Cursor.exists_bytes_of_lookBytes hf
      obtain ⟨-, -, -, hadvance⟩ := (finds_getBytes expected.length c).moves hf
      rw [Int.ofNat_inj.1 hlength] at hadvance
      exact bind_of_ok hadvance

end InPlace

/-! ## The forms and the cursor -/

namespace Cursor

variable {c : Cursor} {w : Want}

/-- Reading is refused in all forms alike. -/
theorem perform_on_of_error {e : Error} (h : c.look w = .error e) (form : Form) :
    c.perform (form.on w) = (.error (.cursor e), c) := by
  cases form with
  | get =>
      rw [Form.on, perform, get, h]
      rfl
  | take =>
      rw [Form.on, perform, take, h]
      rfl
  | expect v =>
      rw [Form.on, perform, expect, h]
      rfl
  | accept v =>
      rw [Form.on, perform, accept, h]
      rfl

/-- What has been found is read in all forms. -/
theorem perform_on_of_ok {f : Found} (h : c.look w = .ok f) :
    c.perform (Form.get.on w) = (.ok (.value f.value), c) ∧
    c.perform (Form.take.on w) = (.ok (.value f.value), c.behind (f.width, f.columns)) ∧
    ∀ v, c.perform ((Form.expect v).on w) = (.ok (.value (.bool (f.value.agrees v))), c) ∧
      c.perform ((Form.accept v).on w) = (.ok (.value (.bool (f.value.agrees v))),
        if f.value.agrees v then c.behind (f.width, f.columns) else c) := by
  refine ⟨?_, ?_, fun v => ⟨?_, ?_⟩⟩
  · rw [Form.on, perform, get_eq_map, h]
    rfl
  · rw [Form.on, perform, take_eq_map, h]
    rfl
  · rw [Form.on, perform, expect_eq_map, h]
    rfl
  · rw [Form.on, perform, accept_eq_map, h]
    rfl

/-- Bytes are the same when they are turned into bytes. -/
theorem answer_expectBytes (c : Cursor) (bs : Bytes) : c.answer (.expectBytes (.value (.bytes bs))) =
    c.perform (.expect (.bytes bs.length) (.bytes bs)) := by
  rw [answer, perform, expectBytes_of_sized rfl, get_eq_map, expect_eq_map]
  cases c.look (.bytes bs.length) <;> rfl

theorem answer_acceptBytes (c : Cursor) (bs : Bytes) : c.answer (.acceptBytes (.value (.bytes bs))) =
    c.perform (.accept (.bytes bs.length) (.bytes bs)) := by
  rw [answer, perform, acceptBytes_of_sized rfl, expectBytes_of_sized rfl, get_eq_map,
    accept_eq_map]
  cases hlook : c.look (.bytes bs.length) with
  | error e => rfl
  | ok f =>
      obtain ⟨read, hlength, rfl⟩ := exists_bytes_of_lookBytes hlook
      rw [← Int.ofNat_inj.1 hlength]
      rfl

/-- A kind may be given by its name. -/
theorem perform_on_name (form : Form) (k : Kind) (c : Cursor) :
    c.perform (form.on (.named k.name)) = c.perform (form.on (.kind k)) := by
  have hlook : c.look (.named k.name) = c.look (.kind k) := look_of_names (.inr rfl) c
  cases form <;> simp only [Form.on, perform, get, take, expect, accept, hlook]

end Cursor

namespace Call

open InPlace

/-- The calls for a kind do what the calls with its name do, wherever the cursor stands. -/
theorem run_typed (form : Form) (k : Kind) : (typed form k).run = (generic form k.name).run := by
  by_cases hk : k = .char
  · subst hk
    have hget : getByName Kind.char.name = getChar := if_pos rfl
    have htake : takeByName Kind.char.name = takeChar := if_pos rfl
    cases form with
    | get =>
        rw [run, run, hget]
    | take =>
        rw [run, run, htake]
    | expect v =>
        rw [run, run, expectByName, hget]
        rfl
    | accept v => rfl
  · have hget : getByName k.name = unpack k.name := if_neg (Kind.name_ne_char hk)
    cases form with
    | get =>
        rw [run, run, hget]
        exact hk
    | take =>
        rw [run, run]
        exact hk
    | expect v =>
        rw [run, run]
        exact hk
    | accept v => rfl

theorem run_eq_of_get {x : InPlace Value} {c : Cursor} {w : Want}
    (h : x c = ofExcept c ((c.get w).map fun v => (v, c))) :
    (do return .value (← x) : InPlace Reply) c = ofAnswer (c.perform (.get w)) := by
  refine (bind_value h id).trans ?_
  rw [Cursor.perform]
  cases c.get w <;> rfl

theorem run_eq_of_expect {x : InPlace Bool} {c : Cursor} {w : Want} {v : Value}
    (h : x c = ofExcept c ((c.expect w v).map fun b => (b, c))) :
    (do return .value (.bool (← x)) : InPlace Reply) c = ofAnswer (c.perform (.expect w v)) := by
  refine (bind_value h .bool).trans ?_
  rw [Cursor.perform]
  cases c.expect w v <;> rfl

theorem run_eq_of_take {x : InPlace Value} {c : Cursor} {w : Want}
    (h : x c = ofExcept c (c.take w)) :
    (do return .value (← x) : InPlace Reply) c = ofAnswer (c.perform (.take w)) := by
  refine (bind_value h id).trans ?_
  rw [Cursor.perform]
  cases c.take w <;> rfl

theorem run_eq_of_accept {x : InPlace Bool} {c : Cursor} {w : Want} {v : Value}
    (h : x c = ofExcept c (c.accept w v)) :
    (do return .value (.bool (← x)) : InPlace Reply) c = ofAnswer (c.perform (.accept w v)) :=
  bind_value h .bool

theorem run_generic (form : Form) (name : Text) (c : Cursor) :
    (generic form name).run c = ofAnswer (c.perform (form.on (.named name))) := by
  cases form with
  | get => exact run_eq_of_get (getByName_eq name c)
  | take => exact run_eq_of_take (takeByName_eq name c)
  | expect v => exact run_eq_of_expect (expect_eq (getByName_eq name c) v)
  | accept v => exact run_eq_of_accept (acceptByName_eq name v c)

/-- A call in place gives the answer, and leaves the cursor that comes of it. -/
theorem run_eq (call : Call) (c : Cursor) : call.run c = ofAnswer (c.answer call) := by
  cases call with
  | generic form name => exact run_generic form name c
  | typed form k =>
      rw [run_typed, run_generic]
      exact congrArg ofAnswer (Cursor.perform_on_name form k c)
  | getBytes count => exact run_eq_of_get (getBytes_eq count c)
  | takeBytes count => exact run_eq_of_take (finds_getBytes count c).take_eq
  | expectBytes x =>
      refine (bind_value (expectBytes_eq x c) .bool).trans ?_
      rw [Cursor.answer]
      cases c.expectBytes x <;> rfl
  | acceptBytes x => exact bind_value (acceptBytes_eq x c) .bool

/-- The call is refused, and the cursor is as it was. -/
def Refuses (call : Call) (c : Cursor) (e : Cursor.Error) : Prop :=
  call.run c = .error (.cursor e) c

/-- The call gives a value, and the cursor is `after` then. -/
def Gives (call : Call) (c : Cursor) (v : Value) (after : Cursor) : Prop :=
  call.run c = .ok (.value v) after

variable {call : Call} {c after : Cursor} {e : Cursor.Error} {v : Value}

theorem refuses_of_answer (h : c.answer call = (.error (.cursor e), c)) : call.Refuses c e := by
  rw [Refuses, run_eq, h]
  rfl

theorem gives_of_answer (h : c.answer call = (.ok (.value v), after)) : call.Gives c v after := by
  rw [Gives, run_eq, h]
  rfl

/-! ### Raw bytes -/

variable {x : Expected} {s : Sized} {count : Int}

theorem get_of_refuses (h : (getBytes count).Refuses c e) : c.get (.bytes count) = .error e := by
  rw [Refuses, run_eq, Cursor.answer, Cursor.perform] at h
  cases hget : c.get (.bytes count) with
  | error e' =>
      rw [hget] at h
      cases h
      rfl
  | ok v =>
      rw [hget] at h
      cases h

theorem get_of_gives (h : (getBytes count).Gives c v after) : c.get (.bytes count) = .ok v := by
  rw [Gives, run_eq, Cursor.answer, Cursor.perform] at h
  cases hget : c.get (.bytes count) with
  | error e =>
      rw [hget] at h
      cases h
  | ok v' =>
      rw [hget] at h
      cases h
      rfl

theorem refuses_of_expectBytes (h : c.expectBytes x = .error e) :
    (expectBytes x).Refuses c e ∧ (acceptBytes x).Refuses c e := by
  constructor
  · apply refuses_of_answer
    rw [Cursor.answer, h]
    rfl
  · apply refuses_of_answer
    rw [Cursor.answer, Cursor.acceptBytes, h]
    rfl

theorem gives_of_expectBytes {b : Bool} (hx : x.sized = .ok s) (h : c.expectBytes x = .ok b) :
    (expectBytes x).Gives c (.bool b) c ∧
    (acceptBytes x).Gives c (.bool b) (if b then c.behind (s.length, s.length) else c) := by
  constructor
  · apply gives_of_answer
    rw [Cursor.answer, h]
    rfl
  · apply gives_of_answer
    rw [Cursor.answer, Cursor.acceptBytes_of_sized hx, h]
    rfl

/-! ### The four forms -/

theorem generic_forms (c : Cursor) (name : Text) :
    (Kind.ofName? name = none ∧
      ∀ form, (generic form name).Refuses c (.unknownKind name (Kind.all.map Kind.name))) ∨
    ∃ k, Kind.ofName? name = some k ∧
      ((c.size < c.mark.position + k.width ∧
        ∀ form, (generic form name).Refuses c (.boundary c.mark.position k.width c.size)) ∨
      ∃ x, c.mark.position + (c.extent k).1 ≤ c.size ∧
        (generic .get name).Gives c x c ∧
        (generic .take name).Gives c x (c.behind (c.extent k)) ∧
        (∀ v, (generic (.expect v) name).Gives c (.bool (x.agrees v)) c ∧
          (generic (.accept v) name).Gives c (.bool (x.agrees v))
            (if x.agrees v then c.behind (c.extent k) else c)) ∧
        (k = .char → c.size ≤ Index.limit → ∃ y, x = .text [y] ∧
          Utf8.glyphAt c.buffer c.mark.position = .ok (y, (c.extent .char).1))) := by
  cases hk : Kind.ofName? name with
  | none =>
      refine .inl ⟨rfl, fun form => refuses_of_answer (Cursor.perform_on_of_error ?_ form)⟩
      rw [Cursor.look, hk]
  | some k =>
      have hlook : c.look (.named name) = c.lookKind k := by
        rw [Cursor.look, hk]
      refine .inr ⟨k, rfl, ?_⟩
      obtain ⟨hlt, hkind⟩ | ⟨f, hkind, hle⟩ := c.lookKind_cases k
      · refine .inl ⟨hlt, fun form => refuses_of_answer ?_⟩
        exact Cursor.perform_on_of_error (hlook.trans hkind) form
      · obtain ⟨hget, htake, hexpected⟩ := Cursor.perform_on_of_ok (hlook.trans hkind)
        have hextent := Cursor.extent_of_lookKind hkind
        rw [← hextent] at htake hexpected
        refine .inr ⟨f.value, ?_, gives_of_answer hget, gives_of_answer htake,
          fun v => ⟨gives_of_answer (hexpected v).1, gives_of_answer (hexpected v).2⟩, ?_⟩
        · rw [hextent]
          exact hle
        · rintro rfl hsize
          exact Cursor.glyphAt_of_lookChar hsize hkind

theorem bytes_forms (c : Cursor) (count : Int) :
    (∃ e, (count < 0 ∧ e = .negativeCount count ∨
        c.size < c.mark.position + count.toNat ∧
          e = .boundary c.mark.position count.toNat c.size) ∧
      (getBytes count).Refuses c e ∧ (takeBytes count).Refuses c e ∧
      ∀ bs : Bytes, (bs.length : Int) = count →
        (expectBytes (.value (.bytes bs))).Refuses c e ∧
        (acceptBytes (.value (.bytes bs))).Refuses c e) ∨
    ∃ read : Bytes, (read.length : Int) = count ∧ c.mark.position + read.length ≤ c.size ∧
      (getBytes count).Gives c (.bytes read) c ∧
      (takeBytes count).Gives c (.bytes read) (c.behind (read.length, read.length)) ∧
      ∀ bs : Bytes, (bs.length : Int) = count →
        (expectBytes (.value (.bytes bs))).Gives c (.bool (read == bs)) c ∧
        (acceptBytes (.value (.bytes bs))).Gives c (.bool (read == bs))
          (if read == bs then c.behind (read.length, read.length) else c) := by
  obtain ⟨e, he, hwhy⟩ | ⟨read, hlength, hle, hread⟩ := c.lookBytes_cases count
  · have hrefused := Cursor.perform_on_of_error (c := c) (w := .bytes count) he
    refine .inl ⟨e, hwhy, refuses_of_answer (hrefused .get), refuses_of_answer (hrefused .take), ?_⟩
    rintro bs rfl
    constructor
    · apply refuses_of_answer
      rw [Cursor.answer_expectBytes]
      exact hrefused (.expect (.bytes bs))
    · apply refuses_of_answer
      rw [Cursor.answer_acceptBytes]
      exact hrefused (.accept (.bytes bs))
  · obtain ⟨hget, htake, hexpected⟩ := Cursor.perform_on_of_ok (c := c) (w := .bytes count) hread
    refine .inr ⟨read, hlength, hle, gives_of_answer hget, gives_of_answer htake, ?_⟩
    rintro bs rfl
    constructor
    · apply gives_of_answer
      rw [Cursor.answer_expectBytes]
      exact (hexpected (.bytes bs)).1
    · apply gives_of_answer
      rw [Cursor.answer_acceptBytes]
      exact (hexpected (.bytes bs)).2

/-- What comes of expecting anything whatever: it has to have a length, then there have to be as many
bytes, and then it has to have bytes. -/
theorem expected_forms (c : Cursor) (x : Expected) :
    (∀ e, x.sized = .error e → (expectBytes x).Refuses c e ∧ (acceptBytes x).Refuses c e) ∧
    ∀ s, x.sized = .ok s →
      (∀ e, (getBytes s.length).Refuses c e →
        (expectBytes x).Refuses c e ∧ (acceptBytes x).Refuses c e) ∧
      ∀ read, (getBytes s.length).Gives c (.bytes read) c →
        (∀ e, s.bytes = .error e → (expectBytes x).Refuses c e ∧ (acceptBytes x).Refuses c e) ∧
        ∀ bs, s.bytes = .ok bs →
          (expectBytes x).Gives c (.bool (read == bs)) c ∧
          (acceptBytes x).Gives c (.bool (read == bs))
            (if read == bs then c.behind (s.length, s.length) else c) := by
  constructor
  · intro e hx
    apply refuses_of_expectBytes
    rw [Cursor.expectBytes, hx]
    rfl
  · intro s hx
    have hexpect := Cursor.expectBytes_of_sized (c := c) hx
    refine ⟨fun e hget => ?_, fun read hget => ⟨fun e hbytes => ?_, fun bs hbytes => ?_⟩⟩
    · rw [get_of_refuses hget] at hexpect
      exact refuses_of_expectBytes hexpect
    · rw [get_of_gives hget, hbytes] at hexpect
      exact refuses_of_expectBytes hexpect
    · rw [get_of_gives hget, hbytes] at hexpect
      exact gives_of_expectBytes hx hexpect

end Call

/-- The four forms of reading agree. What `get` finds is what the others find, and where it is
refused, because no kind has the name or too few bytes are left, they are refused alike and leave the
cursor; `take` moves over the value, and `accept` goes where `take` goes if the value is equal to the
expected one and stays otherwise. The calls for a kind are the calls with its name. Raw bytes have no
name.

Raw bytes are expected as bytes, and then the same holds of them. Whatever else is expected is
refused if it has no length, before anything is read, or if it has no bytes, after as much has been
read as it is long; and if it has bytes, these are compared. -/
theorem access_forms_agree :
    (∀ (c : Cursor) (name : Text),
      (Kind.ofName? name = none ∧
        ∀ form, (Call.generic form name).Refuses c (.unknownKind name (Kind.all.map Kind.name))) ∨
      ∃ k, Kind.ofName? name = some k ∧
        ((c.size < c.mark.position + k.width ∧
          ∀ form, (Call.generic form name).Refuses c (.boundary c.mark.position k.width c.size)) ∨
        ∃ x, c.mark.position + (c.extent k).1 ≤ c.size ∧
          (Call.generic .get name).Gives c x c ∧
          (Call.generic .take name).Gives c x (c.behind (c.extent k)) ∧
          (∀ v, (Call.generic (.expect v) name).Gives c (.bool (x.agrees v)) c ∧
            (Call.generic (.accept v) name).Gives c (.bool (x.agrees v))
              (if x.agrees v then c.behind (c.extent k) else c)) ∧
          (k = .char → c.size ≤ Index.limit → ∃ y, x = .text [y] ∧
            Utf8.glyphAt c.buffer c.mark.position = .ok (y, (c.extent .char).1)))) ∧
    (∀ v w : Value, v.agrees w = true ↔ v.Matches w) ∧
    (∀ (form : Form) (k : Kind), (Call.typed form k).run = (Call.generic form k.name).run) ∧
    (∀ k : Kind, Kind.ofName? k.name = some k) ∧ Kind.ofName? "bytes" = none ∧
    (∀ (c : Cursor) (count : Int),
      (∃ e, (count < 0 ∧ e = .negativeCount count ∨
          c.size < c.mark.position + count.toNat ∧
            e = .boundary c.mark.position count.toNat c.size) ∧
        (Call.getBytes count).Refuses c e ∧ (Call.takeBytes count).Refuses c e ∧
        ∀ bs : Bytes, (bs.length : Int) = count →
          (Call.expectBytes (.value (.bytes bs))).Refuses c e ∧
          (Call.acceptBytes (.value (.bytes bs))).Refuses c e) ∨
      ∃ read : Bytes, (read.length : Int) = count ∧ c.mark.position + read.length ≤ c.size ∧
        (Call.getBytes count).Gives c (.bytes read) c ∧
        (Call.takeBytes count).Gives c (.bytes read) (c.behind (read.length, read.length)) ∧
        ∀ bs : Bytes, (bs.length : Int) = count →
          (Call.expectBytes (.value (.bytes bs))).Gives c (.bool (read == bs)) c ∧
          (Call.acceptBytes (.value (.bytes bs))).Gives c (.bool (read == bs))
            (if read == bs then c.behind (read.length, read.length) else c)) ∧
    (∀ (c : Cursor) (x : Expected),
      (∀ e, x.sized = .error e →
        (Call.expectBytes x).Refuses c e ∧ (Call.acceptBytes x).Refuses c e) ∧
      ∀ s, x.sized = .ok s →
        (∀ e, (Call.getBytes s.length).Refuses c e →
          (Call.expectBytes x).Refuses c e ∧ (Call.acceptBytes x).Refuses c e) ∧
        ∀ read, (Call.getBytes s.length).Gives c (.bytes read) c →
          (∀ e, s.bytes = .error e →
            (Call.expectBytes x).Refuses c e ∧ (Call.acceptBytes x).Refuses c e) ∧
          ∀ bs, s.bytes = .ok bs →
            (Call.expectBytes x).Gives c (.bool (read == bs)) c ∧
            (Call.acceptBytes x).Gives c (.bool (read == bs))
              (if read == bs then c.behind (s.length, s.length) else c)) ∧
    (∀ (call : Call) (c : Cursor), call.run c = InPlace.ofAnswer (c.answer call)) ∧
    ∀ (bs : Bytes) (c : Cursor),
      c.answer (.expectBytes (.value (.bytes bs))) =
        c.perform (.expect (.bytes bs.length) (.bytes bs)) ∧
      c.answer (.acceptBytes (.value (.bytes bs))) =
        c.perform (.accept (.bytes bs.length) (.bytes bs)) := by
  refine ⟨Call.generic_forms, Value.agrees_iff_matches, Call.run_typed, Kind.ofName?_name, rfl,
    Call.bytes_forms, Call.expected_forms, Call.run_eq, fun bs c => ?_⟩
  exact ⟨c.answer_expectBytes bs, c.answer_acceptBytes bs⟩

/-- What two letters are expected to be: a number, a text, a longer text and the numbers of the
letters. -/
theorem forms_at_two_letters :
    let c := Cursor.ofBytes [0x61, 0x62]
    let number : Expected := .value (.int 2)
    let text : Expected := .value (.text "ab")
    let longer : Expected := .value (.text "abc")
    let numbers : Expected := .items [.int 0x61, .int 0x62]
    (Call.generic .get "bytes").Refuses c (.unknownKind "bytes" (Kind.all.map Kind.name)) ∧
      (Call.getBytes 2).Gives c (.bytes [0x61, 0x62]) c ∧
      (Call.getBytes 3).Refuses c (.boundary 0 3 2) ∧
      number.sized = .error (.noLength "int") ∧
      (Call.expectBytes number).Refuses c (.noLength "int") ∧
      text.sized = .ok ⟨2, .error .noEncoding⟩ ∧ (Call.expectBytes text).Refuses c .noEncoding ∧
      longer.sized = .ok ⟨3, .error .noEncoding⟩ ∧
      (Call.expectBytes longer).Refuses c (.boundary 0 3 2) ∧
      numbers.sized = .ok ⟨2, .ok [0x61, 0x62]⟩ ∧
      (Call.acceptBytes numbers).Gives c (.bool true) (c.behind (2, 2)) := by
  intro c number text longer numbers
  have htwo : (Call.getBytes 2).Gives c (.bytes [0x61, 0x62]) c := rfl
  have hthree : (Call.getBytes 3).Refuses c (.boundary 0 3 2) := rfl
  obtain ⟨hgeneric, -, -, -, hname, -, hexpected, -, -⟩ := access_forms_agree
  have hunknown : (Call.generic .get "bytes").Refuses c
      (.unknownKind "bytes" (Kind.all.map Kind.name)) := by
    obtain ⟨-, hrefused⟩ | ⟨k, hk, -⟩ := hgeneric c "bytes"
    · exact hrefused .get
    · cases hname.symm.trans hk
  exact ⟨hunknown, htwo, hthree,
    rfl, ((hexpected c number).1 _ rfl).1,
    rfl, (((hexpected c text).2 _ rfl).2 _ htwo).1 _ rfl |>.1,
    rfl, (((hexpected c longer).2 _ rfl).1 _ hthree).1,
    rfl, ((((hexpected c numbers).2 _ rfl).2 _ htwo).2 _ rfl).2⟩

/-- A value is what is expected, without being turned into anything else. No value is a sequence of
values. -/
def Expected.isMet (x : Expected) (v : Value) : Bool :=
  match x with
  | .value w => v.agrees w
  | .items _ => false

/-- Raw bytes are not compared with what is expected as it stands. No bytes are a text, and yet the
comparison with a text is refused instead of being false; no bytes are a sequence of numbers, and
yet the numbers of two letters match them. Nor can raw bytes be read by a name. -/
theorem bytes_expected_otherwise :
    let c := Cursor.ofBytes [0x61, 0x62]
    let text : Expected := .value (.text "ab")
    let numbers : Expected := .items [.int 0x61, .int 0x62]
    (Call.getBytes 2).run c = .ok (.value (.bytes [0x61, 0x62])) c ∧
      text.isMet (.bytes [0x61, 0x62]) = false ∧
      (Call.expectBytes text).run c = .error (.cursor .noEncoding) c ∧
      (Call.acceptBytes text).run c = .error (.cursor .noEncoding) c ∧
      numbers.isMet (.bytes [0x61, 0x62]) = false ∧
      (Call.expectBytes numbers).run c = .ok (.value (.bool true)) c ∧
      (Call.acceptBytes numbers).run c = .ok (.value (.bool true)) ⟨c.buffer, ⟨2, 1, 3⟩⟩ ∧
      (Call.generic .get "bytes").run c =
        .error (.cursor (.unknownKind "bytes" (Kind.all.map Kind.name))) c := by
  intro c text numbers
  exact ⟨rfl, rfl, rfl, rfl, rfl, rfl, rfl, rfl⟩

end SexpReader
