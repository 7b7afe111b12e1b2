import SexpReader.Proofs.Ahead
import SexpReader.Proofs.Lexeme

/-!
# Reading by descent

The same language can be read by functions that call each other, one for expressions, one for
lists and one for the elements of a list. They share a cursor and look at the buffer through it
alone. A list ends where the attempt to read one more element fails; whatever the failure was, the
closing bracket is only looked for afterwards.

Nothing in these definitions says that they come to an end, or that no cursor is read past the end
of its buffer. So they are defined as least fixed points: `none` stands for a descent that goes on
for ever, and an error for a cursor that refuses. That neither happens is proved.
-/

namespace SexpReader

/-- A computation that may be refused by a cursor and may go on for ever. -/
abbrev Descent (α : Type) := ExceptT Cursor.Error Option α

namespace Descent

/-- An operation on a cursor. -/
def of {α : Type} (x : Except Cursor.Error α) : Descent α := ExceptT.mk (some x)

theorem of_ok {α : Type} (a : α) : of (.ok a) = pure a := rfl

end Descent

namespace Cursor

/-- Skips blanks. The only place where lines are counted. -/
def skipBlanks (d : Dialect) (c : Cursor) : Descent Cursor := do
  if c.isEmpty then return c
  else
    let char ← .of c.char
    if (d.classify char).isBlank then
      let (_, c') ← .of (c.take (.kind .char))
      (if char = d.newline then c'.advanceLine else c') |>.skipBlanks d
    else return c
partial_fixpoint

/-- Moves past the constituents at the cursor. -/
def skipConstituents (d : Dialect) (c : Cursor) : Descent Cursor := do
  if c.isEmpty then return c
  else
    let char ← .of c.char
    if d.classify char = .constituent then
      let (_, c') ← .of (c.take (.kind .char))
      c' |>.skipConstituents d
    else return c
partial_fixpoint

/-- Reads an atom, which is not empty. -/
def atom (d : Dialect) (c : Cursor) : Descent (Outcome × Cursor) := do
  let c' ← c.skipConstituents d
  if c'.mark.position = c.mark.position then return (.error (Reader.endFailure "atom" c.mark), c')
  else
    let bytes := Index.window c.buffer c.mark.position c'.mark.position
    return (.ok (.atom (Utf8.decodeLossy bytes) (.between c.mark.position c'.mark.position)), c')

mutual

/-- Reads an expression and the blanks around it. -/
def expression (d : Dialect) (c : Cursor) : Descent (Outcome × Cursor × List Event) := do
  let c ← c.skipBlanks d
  if c.isEmpty then return (.error (Reader.endFailure "atom or list" c.mark), c, [])
  else
    let (opens, c') ← .of (c.accept (.kind .char) (.text [d.opening]))
    let (outcome, c', events) ←
      if opens then c' |>.list d c.mark.position
      else do
        let (outcome, c') ← c.atom d
        pure (outcome, c', [])
    let c' ← c'.skipBlanks d
    return (outcome, c', events ++ [.expression outcome c'.mark])
partial_fixpoint

/-- Reads the rest of a list whose opening bracket is at `start`. -/
def list (d : Dialect) (start : Nat) (c : Cursor) : Descent (Outcome × Cursor × List Event) := do
  let c ← c.skipBlanks d
  let (items, c, events) ← c |>.elements d
  if c.isEmpty then return (.error (Reader.endFailure d.closingName c.mark), c, events)
  else
    let found ← .of c.char
    let (closes, c') ← .of (c.accept (.kind .char) (.text [d.closing]))
    if closes then
      return (.ok (.list items (.between start c'.mark.position)), c', events)
    else
      return (.error ⟨.unexpected [found], d.closingName, c.mark.line, c.mark.column⟩, c', events)
partial_fixpoint

/-- Reads expressions until one fails. -/
def elements (d : Dialect) (c : Cursor) : Descent (List Node × Cursor × List Event) := do
  let c ← c.skipBlanks d
  let (outcome, c, events) ← c |>.expression d
  match outcome with
  | .error failure => return ([], c, events ++ [.listEnd failure])
  | .ok node =>
    let (nodes, c, events') ← c |>.elements d
    return (node :: nodes, c, events ++ events')
partial_fixpoint

end

/-- Reads exactly one expression. What is left over is what fails, whatever came before it. -/
def descend (d : Dialect) (c : Cursor) : Descent Parsed := do
  let (outcome, c', events) ← c.expression d
  if c'.isEmpty then return ⟨outcome, c', events⟩
  else
    let char ← .of c'.char
    let failure := ⟨.unexpected [char], "end of input", c'.mark.line, c'.mark.column⟩
    return ⟨.error failure, c', events⟩

/-! ## The loops -/

variable {d : Dialect} {c : Cursor} {g : Glyph} {gs : List Glyph}

theorem skipBlanks_eq (h : c.Faces gs) :
    c.skipBlanks d = pure (c.after d (gs.takeWhile d.isBlank)) := by
  induction gs generalizing c with
  | nil =>
      rw [skipBlanks, h.isEmpty_nil]
      rfl
  | cons g gs ih =>
      rw [skipBlanks, h.isEmpty_cons, h.char, h.take, Descent.of_ok, Descent.of_ok]
      simp only [Bool.false_eq_true, if_false, pure_bind, ← past_classify]
      cases hg : d.isBlank g with
      | true =>
          rw [List.takeWhile_cons_of_pos hg, after_cons, ← ih (h.past _)]
          exact if_pos hg
      | false =>
          rw [List.takeWhile_cons_of_neg (Bool.eq_false_iff.1 hg)]
          exact if_neg (Bool.eq_false_iff.1 hg)

theorem skipConstituents_eq (h : c.Faces gs) :
    c.skipConstituents d = pure (c.after d (gs.takeWhile d.isConstituent)) := by
  induction gs generalizing c with
  | nil =>
      rw [skipConstituents, h.isEmpty_nil]
      rfl
  | cons g gs ih =>
      rw [skipConstituents, h.isEmpty_cons, h.char, h.take, Descent.of_ok, Descent.of_ok]
      simp only [Bool.false_eq_true, if_false, pure_bind]
      by_cases hk : d.classify g.char = .constituent
      · have hg := Dialect.isConstituent_iff.2 hk
        rw [if_pos hk, List.takeWhile_cons_of_pos hg, after_cons, ← ih (h.past _), hk,
          past_of_ne_newline c (by decide)]
      · have hg := Dialect.isConstituent_eq_false_iff.2 hk
        rw [if_neg hk, List.takeWhile_cons_of_neg (Bool.eq_false_iff.1 hg)]
        rfl

/-- Where no atom begins, the cursor stays. -/
theorem atom_eq_error (h : c.Faces (g :: gs)) (hg : d.classify g.char ≠ .constituent) :
    c.atom d = pure (.error (Reader.endFailure "atom" c.mark), c) := by
  have hnil : (g :: gs).takeWhile d.isConstituent = [] :=
    List.takeWhile_cons_of_neg (Bool.eq_false_iff.1 (Dialect.isConstituent_eq_false_iff.2 hg))
  rw [atom, skipConstituents_eq h, hnil, after_nil, pure_bind, if_pos rfl]

/-- An atom is a run of constituents that cannot go on. -/
theorem atom_eq_ok {run : List Glyph} (h : c.Faces (run ++ gs)) (hne : run ≠ [])
    (hrun : ∀ g ∈ run, d.isConstituent g = true)
    (hgs : ∀ g ∈ gs.head?, d.isConstituent g = false) :
    c.atom d = pure (.ok (.atom (Utf8.decodeLossy (run.flatMap Glyph.bytes))
      (.between c.mark.position (c.after d run).mark.position)), c.after d run) := by
  have hmoved : (c.after d run).mark.position ≠ c.mark.position :=
    Nat.ne_of_gt (h.lt_position_after hne)
  rw [atom, skipConstituents_eq h, Dialect.takeWhile_append_of_head hrun hgs, pure_bind,
    if_neg hmoved, h.window d]

end Cursor

end SexpReader
