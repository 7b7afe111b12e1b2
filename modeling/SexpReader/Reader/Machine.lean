import SexpReader.Dialect
import SexpReader.Reader.Event
import SexpReader.Utf8.Lossy

/-!
# Reading one expression

The reader is a machine that takes a source glyph by glyph. It keeps the lists that are open, the
innermost first, and is in one of four phases: looking for the next expression, inside an atom,
past a complete expression but not yet past the blanks after it, or stopped. Reading a source is
the left fold of `Reader.step` over its glyphs, followed by `Reader.finish`.

The machine stops in front of the first glyph that cannot belong to the expression or to the
blanks around it: anything after the blanks that follow a complete outermost expression, or a
closing bracket where an expression should begin. From then on no glyph changes it. A closing
bracket inside a list also ends an attempt to read an element, and that attempt is reported as one
that found no atom.

Events are only recorded if `tracing` is on.
-/

namespace SexpReader

/-- A list that is still open: where it begins, and its elements so far, the last first. -/
structure Frame where
  start : Nat
  items : List Node

/-- What the reader is doing. -/
inductive Phase where
  /-- It looks for the start of an expression. -/
  | seeking
  /-- It is inside an atom that began at `start`; `run` holds its glyphs, the last first. -/
  | inAtom (start : Nat) (run : List Glyph)
  /-- It has a complete expression and skips the blanks after it. -/
  | complete (node : Node)
  /-- It has stopped in front of the character `next`. -/
  | stopped (outcome : Outcome) (next : CodePoint)

/-- The state of the machine. Events are kept with the last first. -/
structure Reader where
  mark : Mark
  frames : List Frame
  phase : Phase
  events : List Event

/-- What is known when reading ends: the outcome, the character in front of which it ended if
there is one, the place, and the events in order. -/
structure Reading where
  outcome : Outcome
  next? : Option CodePoint
  mark : Mark
  events : List Event

/-- The place after a glyph of class `k`. A newline begins a line, everything else is one column
wide. -/
def Mark.past (m : Mark) (k : CharClass) (g : Glyph) : Mark :=
  let there := m.advance g.bytes.length 1
  if k = .newline then there.advanceLine else there

namespace Reader

/-- A reader in front of a source. -/
def start (mark : Mark) : Reader := ⟨mark, [], .seeking, []⟩

/-- The failure to find something at the end of the input. -/
def endFailure (expected : Text) (m : Mark) : Failure :=
  ⟨.endOfInput, expected, m.line, m.column⟩

/-- Records an event if `tracing` is on. -/
def record (tracing : Bool) (e : Event) (r : Reader) : Reader :=
  if tracing then { r with events := e :: r.events } else r

/-- Moves past a glyph of class `k`. -/
def pass (k : CharClass) (g : Glyph) (r : Reader) : Reader :=
  { r with mark := r.mark.past k g }

/-- The atom that began at `start` and ends here. -/
def atomNode (start : Nat) (run : List Glyph) (r : Reader) : Node :=
  .atom (Utf8.decodeLossy (run.reverse.flatMap Glyph.bytes)) (.between start r.mark.position)

/-- A glyph where an expression may begin. -/
def seek (tracing : Bool) (k : CharClass) (g : Glyph) (r : Reader) : Reader :=
  match k with
  | .newline | .blank => r.pass k g
  | .opening => { r.pass k g with frames := ⟨r.mark.position, []⟩ :: r.frames }
  | .constituent => { r.pass k g with phase := .inAtom r.mark.position [g] }
  | .closing =>
    let failure := endFailure "atom" r.mark
    let r := r.record tracing (.expression (.error failure) r.mark)
    match r.frames with
    | [] => { r with phase := .stopped (.error failure) g.char }
    | f :: fs =>
      let r := (r.record tracing (.listEnd failure)).pass k g
      { r with
        frames := fs
        phase := .complete (.list f.items.reverse (.between f.start r.mark.position)) }

/-- A glyph after a complete expression. The first that is not blank hands the expression over to
the list it stands in, or stops the machine if it stands in none. -/
def settle (tracing : Bool) (node : Node) (k : CharClass) (g : Glyph) (r : Reader) : Reader :=
  if k.isBlank then { r.pass k g with phase := .complete node }
  else
    let r := r.record tracing (.expression (.ok node) r.mark)
    match r.frames with
    | [] => { r with phase := .stopped (.ok node) g.char }
    | f :: fs =>
      seek tracing k g
        { r with frames := { f with items := node :: f.items } :: fs, phase := .seeking }

/-- One glyph of class `k`. -/
def stepAs (tracing : Bool) (k : CharClass) (r : Reader) (g : Glyph) : Reader :=
  match r.phase with
  | .stopped .. => r
  | .seeking => r.seek tracing k g
  | .complete node => r.settle tracing node k g
  | .inAtom start run =>
    if k = .constituent then { r.pass k g with phase := .inAtom start (g :: run) }
    else r.settle tracing (r.atomNode start run) k g

/-- One glyph. -/
def step (d : Dialect) (tracing : Bool) (r : Reader) (g : Glyph) : Reader :=
  r.stepAs tracing (d.classify g.char) g

theorem step_of_stopped {d : Dialect} {tracing : Bool} {r : Reader} {outcome : Outcome}
    {next : CodePoint} (h : r.phase = .stopped outcome next) (g : Glyph) :
    r.step d tracing g = r := by
  rw [step, stepAs, h]

/-- A machine that has stopped stays as it is. -/
theorem foldl_step_of_stopped {d : Dialect} {tracing : Bool} {r : Reader} {outcome : Outcome}
    {next : CodePoint} (h : r.phase = .stopped outcome next) (gs : List Glyph) :
    gs.foldl (step d tracing) r = r := by
  induction gs with
  | nil => rfl
  | cons g gs ih => rw [List.foldl_cons, step_of_stopped h, ih]

/-- The events of giving up the open lists one after the other, the innermost first. The attempt
to read the next element has failed with `reason`; after that, each list fails for want of its
end. -/
def giveUp (failure : Failure) (mark : Mark) : Failure → List Frame → List Event
  | _, [] => []
  | reason, _ :: fs =>
    .listEnd reason :: .expression (.error failure) mark :: giveUp failure mark failure fs

/-- The end of the input where an expression may begin. -/
def finishSeeking (d : Dialect) (tracing : Bool) (r : Reader) : Reading :=
  let missing := endFailure "atom or list" r.mark
  let unclosed := endFailure d.closingName r.mark
  let events := r.events.reverse ++ if tracing then giveUp unclosed r.mark missing r.frames else []
  ⟨.error (if r.frames.isEmpty then missing else unclosed), none, r.mark, events⟩

/-- The end of the input after a complete expression. -/
def finishComplete (d : Dialect) (tracing : Bool) (node : Node) (r : Reader) : Reading :=
  let r := r.record tracing (.expression (.ok node) r.mark)
  match r.frames with
  | [] => ⟨.ok node, none, r.mark, r.events.reverse⟩
  | _ => r.finishSeeking d tracing

/-- The end of the input. -/
def finish (d : Dialect) (tracing : Bool) (r : Reader) : Reading :=
  match r.phase with
  | .stopped outcome next => ⟨outcome, some next, r.mark, r.events.reverse⟩
  | .seeking => r.finishSeeking d tracing
  | .complete node => r.finishComplete d tracing node
  | .inAtom start run => r.finishComplete d tracing (r.atomNode start run)

/-- Reads one expression and the blanks around it from a sequence of glyphs. -/
def readGlyphs (d : Dialect) (tracing : Bool) (mark : Mark) (gs : List Glyph) : Reading :=
  (gs.foldl (step d tracing) (start mark)).finish d tracing

end Reader

end SexpReader
