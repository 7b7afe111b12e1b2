import Mathlib.Data.List.SplitBy
import Mathlib.Data.List.TakeWhile
import SexpReader.Dialect
import SexpReader.Tree.Basic
import SexpReader.Utf8.Lossy

/-!
# Lexemes

A lexeme is an atom with its text or one of the two brackets. There are two ways to get a sequence
of them. `Dialect.lexemes` cuts a source into pieces: constituents that stand next to each other
form one piece, every other glyph is a piece of its own, and the pieces that are blanks are left
out. `Node.lexemes` writes an expression from left to right.

The lexemes of an expression tell where it ends: `Node.same_of_lexemes_append` says that no
expression is spelled by the beginning of another. So an expression can be recovered from its
lexemes, up to bounds, and a sequence of lexemes spells at most one.
-/

namespace SexpReader

/-- What a source is made of, blanks apart. -/
inductive Lexeme where
  | atom (value : Text)
  | opening
  | closing
deriving DecidableEq

namespace Dialect

variable {d : Dialect}

/-- Whether a glyph is a blank. -/
def isBlank (d : Dialect) (g : Glyph) : Bool := (d.classify g.char).isBlank

/-- Whether a glyph may stand in an atom. -/
def isConstituent (d : Dialect) (g : Glyph) : Bool := d.classify g.char == .constituent

/-- The longest runs of neighbouring constituents, and the other glyphs one by one. -/
def pieces (d : Dialect) (gs : List Glyph) : List (List Glyph) :=
  gs.splitBy fun g h => d.isConstituent g && d.isConstituent h

/-- The lexeme that a piece stands for, unless it is a blank. -/
def lexeme? (d : Dialect) : List Glyph → Option Lexeme
  | [] => none
  | g :: gs =>
    match d.classify g.char with
    | .newline | .blank => none
    | .opening => some .opening
    | .closing => some .closing
    | .constituent => some (.atom (Utf8.decodeLossy ((g :: gs).flatMap Glyph.bytes)))

/-- The lexemes of a source. -/
def lexemes (d : Dialect) (gs : List Glyph) : List Lexeme := (d.pieces gs).filterMap d.lexeme?

@[simp] theorem lexemes_nil : d.lexemes [] = [] := rfl

theorem isConstituent_iff {g : Glyph} :
    d.isConstituent g = true ↔ d.classify g.char = .constituent := by
  rw [isConstituent, beq_iff_eq]

theorem isConstituent_eq_false_iff {g : Glyph} :
    d.isConstituent g = false ↔ d.classify g.char ≠ .constituent := by
  rw [isConstituent, beq_eq_false_iff_ne]

theorem ne_constituent_of_isBlank {g : Glyph} (h : d.isBlank g = true) :
    d.classify g.char ≠ .constituent := by
  intro hk
  rw [isBlank, hk] at h
  cases h

/-- What comes after the longest part with a property begins without it. -/
theorem eq_false_of_mem_head?_dropWhile {p : Glyph → Bool} {gs : List Glyph} {g : Glyph}
    (h : g ∈ (gs.dropWhile p).head?) : p g = false := by
  have hnot := List.head?_dropWhile_not p gs
  rw [Option.mem_def.1 h] at hnot
  exact hnot

/-- The longest part with a property ends where something begins without it. -/
theorem takeWhile_append_of_head {p : Glyph → Bool} {gs hs : List Glyph}
    (hgs : ∀ g ∈ gs, p g = true) (hhs : ∀ g ∈ hs.head?, p g = false) :
    (gs ++ hs).takeWhile p = gs := by
  rw [List.takeWhile_append_of_pos hgs]
  cases hs with
  | nil => rw [List.takeWhile_nil, List.append_nil]
  | cons g hs => rw [List.takeWhile_cons_of_neg (Bool.eq_false_iff.1 (hhs g rfl)), List.append_nil]

/-- A constituent begins a run of constituents that ends where the source or the atom does. -/
theorem exists_run {g : Glyph} (hg : d.classify g.char = .constituent) (gs : List Glyph) :
    ∃ run rest, g :: gs = run ++ rest ∧ run ≠ [] ∧ (∀ x ∈ run, d.isConstituent x = true) ∧
      ∀ x ∈ rest.head?, d.isConstituent x = false := by
  refine ⟨(g :: gs).takeWhile d.isConstituent, (g :: gs).dropWhile d.isConstituent,
    List.takeWhile_append_dropWhile.symm, ?_, fun x hx => List.mem_takeWhile_imp hx,
    fun x hx => eq_false_of_mem_head?_dropWhile hx⟩
  rw [List.takeWhile_cons_of_pos (isConstituent_iff.2 hg)]
  exact List.cons_ne_nil _ _

/-- A source can be cut wherever no run of constituents goes on. -/
theorem lexemes_append {gs hs : List Glyph}
    (h : ∀ g ∈ gs.getLast?, ∀ g' ∈ hs.head?, (d.isConstituent g && d.isConstituent g') = false) :
    d.lexemes (gs ++ hs) = d.lexemes gs ++ d.lexemes hs := by
  rw [lexemes, pieces, List.splitBy_append h, List.filterMap_append]
  rfl

theorem lexemes_cons_of_ne {g : Glyph} (h : d.classify g.char ≠ .constituent) (gs : List Glyph) :
    d.lexemes (g :: gs) = (d.lexeme? [g]).toList ++ d.lexemes gs := by
  have hg := isConstituent_eq_false_iff.2 h
  have happend : d.lexemes ([g] ++ gs) = d.lexemes [g] ++ d.lexemes gs := by
    apply lexemes_append
    intro x hx y _
    rw [List.getLast?_singleton, Option.mem_some_iff] at hx
    rw [← hx, hg, Bool.false_and]
  rw [List.singleton_append] at happend
  rw [happend, lexemes, pieces, List.splitBy_of_isChain (List.cons_ne_nil _ _)
    (List.isChain_singleton g)]
  cases hl : d.lexeme? [g] <;> simp [hl]

theorem lexemes_cons_of_isBlank {g : Glyph} (h : (d.classify g.char).isBlank = true)
    (gs : List Glyph) : d.lexemes (g :: gs) = d.lexemes gs := by
  have hne : d.classify g.char ≠ .constituent := by
    intro hk
    rw [hk] at h
    cases h
  rw [lexemes_cons_of_ne hne, lexeme?]
  cases hk : d.classify g.char <;> simp_all [CharClass.isBlank]

theorem lexemes_cons_of_opening {g : Glyph} (h : d.classify g.char = .opening)
    (gs : List Glyph) : d.lexemes (g :: gs) = .opening :: d.lexemes gs := by
  rw [lexemes_cons_of_ne (by rw [h]; nofun), lexeme?, h]
  rfl

theorem lexemes_cons_of_closing {g : Glyph} (h : d.classify g.char = .closing)
    (gs : List Glyph) : d.lexemes (g :: gs) = .closing :: d.lexemes gs := by
  rw [lexemes_cons_of_ne (by rw [h]; nofun), lexeme?, h]
  rfl

/-- A run of constituents is one atom. -/
theorem lexemes_run {run : List Glyph} (hne : run ≠ [])
    (hrun : ∀ g ∈ run, d.isConstituent g = true) :
    d.lexemes run = [.atom (Utf8.decodeLossy (run.flatMap Glyph.bytes))] := by
  have hchain : run.IsChain fun g h => (d.isConstituent g && d.isConstituent h) = true := by
    rw [List.isChain_iff_getElem]
    intro i hi
    rw [hrun _ (List.getElem_mem _), hrun _ (List.getElem_mem _), Bool.and_self]
  rw [lexemes, pieces, List.splitBy_of_isChain hne hchain]
  cases run with
  | nil => exact (hne rfl).elim
  | cons g run =>
      have hg := isConstituent_iff.1 (hrun g List.mem_cons_self)
      simp [lexeme?, hg]

/-- A run of constituents ends at the first glyph of another class. -/
theorem lexemes_run_append {run : List Glyph} (hne : run ≠ [])
    (hrun : ∀ g ∈ run, d.isConstituent g = true) {g : Glyph}
    (hg : d.classify g.char ≠ .constituent) (gs : List Glyph) :
    d.lexemes (run ++ g :: gs) =
      .atom (Utf8.decodeLossy (run.flatMap Glyph.bytes)) :: d.lexemes (g :: gs) := by
  rw [lexemes_append, lexemes_run hne hrun]
  · rfl
  · intro x _ y hy
    rw [List.head?_cons, Option.mem_some_iff] at hy
    rw [← hy, isConstituent_eq_false_iff.2 hg, Bool.and_false]

/-- A glyph that is no blank leaves a lexeme. -/
theorem lexemes_cons_ne_nil {g : Glyph} (h : (d.classify g.char).isBlank = false)
    (gs : List Glyph) : d.lexemes (g :: gs) ≠ [] := by
  cases hk : d.classify g.char with
  | newline | blank =>
      rw [hk] at h
      cases h
  | opening =>
      rw [lexemes_cons_of_opening hk]
      exact List.cons_ne_nil _ _
  | closing =>
      rw [lexemes_cons_of_closing hk]
      exact List.cons_ne_nil _ _
  | constituent =>
      obtain ⟨run, rest, hsplit, hne, hrun, hrest⟩ := exists_run hk gs
      rw [hsplit]
      cases rest with
      | nil =>
          rw [List.append_nil, lexemes_run hne hrun]
          exact List.cons_ne_nil _ _
      | cons y ys =>
          rw [lexemes_run_append hne hrun (isConstituent_eq_false_iff.1 (hrest y rfl))]
          exact List.cons_ne_nil _ _

end Dialect

namespace Node

mutual

/-- An expression written from left to right. -/
def lexemes : Node → List Lexeme
  | .atom v _ => [.atom v]
  | .list xs _ => .opening :: lexemesAll xs ++ [.closing]

/-- Expressions written one after the other. -/
def lexemesAll : List Node → List Lexeme
  | [] => []
  | x :: xs => lexemes x ++ lexemesAll xs

end

theorem lexemesAll_append (xs ys : List Node) :
    lexemesAll (xs ++ ys) = lexemesAll xs ++ lexemesAll ys := by
  induction xs with
  | nil => rfl
  | cons x xs ih => rw [List.cons_append, lexemesAll, lexemesAll, ih, List.append_assoc]

theorem lexemesAll_singleton (x : Node) : lexemesAll [x] = lexemes x := by
  rw [lexemesAll, lexemesAll, List.append_nil]

/-- The lexemes of an expression do not begin with a closing bracket. -/
theorem lexemes_ne_closing_cons (t : Node) (xs ys : List Lexeme) :
    t.lexemes ++ xs ≠ .closing :: ys := by
  cases t with
  | atom v b => simp [lexemes]
  | list ts b => simp [lexemes]
  | leaf x => exact x.elim

theorem lexemes_ne_nil (t : Node) : t.lexemes ≠ [] := by
  cases t with
  | atom v b => simp [lexemes]
  | list ts b => simp [lexemes]
  | leaf x => exact x.elim

mutual

/-- The lexemes of an expression tell what it is and where it ends. -/
theorem same_of_lexemes_append : ∀ (t u : Node) (xs ys : List Lexeme),
    t.lexemes ++ xs = u.lexemes ++ ys → t.same u = true ∧ xs = ys
  | .atom v _, .atom w _, xs, ys, h => by
      simp only [lexemes, List.cons_append, List.nil_append, List.cons.injEq,
        Lexeme.atom.injEq] at h
      obtain ⟨rfl, hrest⟩ := h
      exact ⟨beq_self_eq_true v, hrest⟩
  | .atom _ _, .list _ _, _, _, h => by
      simp [lexemes] at h
  | .list _ _, .atom _ _, _, _, h => by
      simp [lexemes] at h
  | .list ts _, .list us _, xs, ys, h => by
      simp only [lexemes, List.cons_append, List.append_assoc, List.nil_append,
        List.cons.injEq, true_and] at h
      exact sameAll_of_lexemesAll_append ts us xs ys h

theorem sameAll_of_lexemesAll_append : ∀ (ts us : List Node) (xs ys : List Lexeme),
    lexemesAll ts ++ .closing :: xs = lexemesAll us ++ .closing :: ys →
      Tree.sameAllBy (· == ·) ts us = true ∧ xs = ys
  | [], [], _, _, h => by
      simp only [lexemesAll, List.nil_append, List.cons.injEq, true_and] at h
      exact ⟨rfl, h⟩
  | [], u :: us, xs, ys, h => by
      rw [lexemesAll, lexemesAll, List.append_assoc] at h
      exact (lexemes_ne_closing_cons u _ _ h.symm).elim
  | t :: ts, [], xs, ys, h => by
      rw [lexemesAll, lexemesAll, List.append_assoc] at h
      exact (lexemes_ne_closing_cons t _ _ h).elim
  | t :: ts, u :: us, xs, ys, h => by
      rw [lexemesAll, lexemesAll, List.append_assoc, List.append_assoc] at h
      obtain ⟨hhead, htail⟩ := same_of_lexemes_append t u _ _ h
      obtain ⟨hall, hrest⟩ := sameAll_of_lexemesAll_append ts us xs ys htail
      refine ⟨?_, hrest⟩
      rw [Tree.sameAllBy, hall, Bool.and_true]
      exact hhead

end

mutual

theorem lexemes_eq_of_same : ∀ t u : Node, t.same u = true → t.lexemes = u.lexemes
  | .atom v _, .atom w _, h => by
      rw [lexemes, lexemes, eq_of_beq h]
  | .atom _ _, .list _ _, h => by
      cases h
  | .list _ _, .atom _ _, h => by
      cases h
  | .list ts _, .list us _, h => by
      rw [lexemes, lexemes, lexemesAll_eq_of_sameAll ts us h]

theorem lexemesAll_eq_of_sameAll : ∀ ts us : List Node,
    Tree.sameAllBy (· == ·) ts us = true → lexemesAll ts = lexemesAll us
  | [], [], _ => rfl
  | [], _ :: _, h => by
      cases h
  | _ :: _, [], h => by
      cases h
  | t :: ts, u :: us, h => by
      rw [Tree.sameAllBy, Bool.and_eq_true] at h
      rw [lexemesAll, lexemesAll, lexemes_eq_of_same t u h.1,
        lexemesAll_eq_of_sameAll ts us h.2]

end

/-- Expressions are equal up to bounds exactly if they are spelled alike. -/
theorem same_iff_lexemes_eq (t u : Node) : t.same u = true ↔ t.lexemes = u.lexemes := by
  constructor
  · exact lexemes_eq_of_same t u
  · intro h
    have happend : t.lexemes ++ [] = u.lexemes ++ [] := by rw [h]
    exact (same_of_lexemes_append t u [] [] happend).1

mutual

/-- Brackets come in pairs. -/
theorem count_opening_lexemes : ∀ t : Node,
    t.lexemes.count .opening = t.lexemes.count .closing
  | .atom _ _ => by simp [lexemes]
  | .list ts _ => by
      have h := count_opening_lexemesAll ts
      simp [lexemes, h]

theorem count_opening_lexemesAll : ∀ ts : List Node,
    (lexemesAll ts).count .opening = (lexemesAll ts).count .closing
  | [] => rfl
  | t :: ts => by
      rw [lexemesAll, List.count_append, List.count_append, count_opening_lexemes t,
        count_opening_lexemesAll ts]

end

end Node

end SexpReader
