import SexpReader.Proofs.Agreement
import SexpReader.Proofs.Grammar
import SexpReader.Proofs.Postorder
import SexpReader.Proofs.Relocation

/-!
# The source of an expression

`Dialect.Spells` relates an expression to the glyphs it was read from and to the offset at which
they begin. It is a grammar in which the bounds are spelled out: they are where the glyphs begin
and end, without the blanks around them, for the expression and for everything inside it.

Reading and this grammar are the same. From glyphs that spell an expression the reader gets just
that expression, bounds included, whatever lists are open at the time, and reports on it from the
inside. And where parsing succeeds, the source is spelled like the expression that it gives, blanks
before and behind apart.
-/

namespace SexpReader

/-- The number of bytes of some glyphs. -/
def Glyph.size (gs : List Glyph) : Nat := (gs.flatMap Glyph.bytes).length

@[simp] theorem Glyph.size_nil : size [] = 0 := rfl

@[simp] theorem Glyph.size_append (gs hs : List Glyph) : size (gs ++ hs) = size gs + size hs := by
  simp [size]

theorem Glyph.size_cons (g : Glyph) (gs : List Glyph) : size (g :: gs) = size [g] + size gs :=
  size_append [g] gs

namespace Dialect

/-- Constituents do not go on from the first glyphs to the second. -/
def Apart (d : Dialect) (gs hs : List Glyph) : Prop :=
  ∀ g ∈ gs.getLast?, ∀ h ∈ hs.head?, (d.isConstituent g && d.isConstituent h) = false

mutual

/-- The glyphs, of which the first begins at the offset `start`, are the source of an expression
with exactly its bounds. -/
inductive Spells (d : Dialect) : (start : Nat) → List Glyph → Node → Prop where
  | atom {start : Nat} {run : List Glyph} (hne : run ≠ [])
      (hrun : ∀ g ∈ run, d.isConstituent g = true) :
      Spells d start run (.atom (Utf8.decodeLossy (run.flatMap Glyph.bytes))
        (.between start (start + Glyph.size run)))
  | list {start : Nat} {first last : Glyph} {blanks inner : List Glyph} {xs : List Node}
      (hfirst : d.classify first.char = .opening) (hblanks : ∀ g ∈ blanks, d.isBlank g = true)
      (hinner : SpellsAll d (start + Glyph.size (first :: blanks)) inner xs)
      (hlast : d.classify last.char = .closing) :
      Spells d start (first :: (blanks ++ inner) ++ [last])
        (.list xs (.between start (start + Glyph.size (first :: (blanks ++ inner) ++ [last]))))

/-- The glyphs are the source of some expressions, with blanks between them and behind the last. -/
inductive SpellsAll (d : Dialect) : (start : Nat) → List Glyph → List Node → Prop where
  | nil {start : Nat} : SpellsAll d start [] []
  | cons {start : Nat} {gs blanks more : List Glyph} {x : Node} {xs : List Node}
      (hx : Spells d start gs x) (hblanks : ∀ g ∈ blanks, d.isBlank g = true)
      (hmore : SpellsAll d (start + Glyph.size (gs ++ blanks)) more xs)
      (hapart : d.Apart gs (blanks ++ more)) :
      SpellsAll d start (gs ++ blanks ++ more) (x :: xs)

end

variable {d : Dialect} {start : Nat} {gs hs rest : List Glyph} {n x : Node} {xs : List Node}

theorem apart_of_head (h : ∀ g ∈ hs.head?, d.isConstituent g = false) : d.Apart gs hs := by
  intro g _ g' hg'
  rw [h g' hg', Bool.and_false]

theorem Apart.head (h : d.Apart gs hs) (hne : gs ≠ [])
    (hgs : ∀ g ∈ gs, d.isConstituent g = true) : ∀ g ∈ hs.head?, d.isConstituent g = false := by
  intro g hg
  have hlast := h (gs.getLast hne) (List.getLast?_eq_getLast_of_ne_nil hne) g hg
  rw [hgs _ (List.getLast_mem hne), Bool.true_and] at hlast
  exact hlast

theorem Apart.append (h : d.Apart gs hs) (hrest : ∀ g ∈ rest.head?, d.isConstituent g = false) :
    d.Apart gs (hs ++ rest) := by
  cases hs with
  | nil => exact apart_of_head hrest
  | cons g hs => exact h

theorem Apart.of_append (h : d.Apart gs (hs ++ rest)) : d.Apart gs hs := by
  cases hs with
  | nil => exact fun _ _ _ hg => nomatch hg
  | cons g hs => exact h

theorem Spells.head? (h : d.Spells start gs n) :
    ∃ g, gs.head? = some g ∧ d.isBlank g = false := by
  cases h with
  | atom hne hrun =>
      obtain ⟨g, run, rfl⟩ := List.exists_cons_of_ne_nil hne
      refine ⟨g, rfl, ?_⟩
      rw [isBlank, isConstituent_iff.1 (hrun g List.mem_cons_self)]
      rfl
  | @list _ first _ _ _ _ hfirst =>
      refine ⟨first, rfl, ?_⟩
      rw [isBlank, hfirst]
      rfl

theorem SpellsAll.head_append (h : d.SpellsAll start gs xs)
    (hrest : ∀ g ∈ rest.head?, d.isBlank g = false) :
    ∀ g ∈ (gs ++ rest).head?, d.isBlank g = false := by
  cases h with
  | nil => exact hrest
  | cons hx =>
      obtain ⟨g, hhead, hblank⟩ := hx.head?
      simp only [List.append_assoc, List.head?_append, hhead, Option.some_or]
      intro g' hg'
      cases hg'
      exact hblank

mutual

/-- What lies inside an expression is spelled by the glyphs between its own bounds. -/
theorem Spells.of_mem_preorder : ∀ {start : Nat} {gs : List Glyph} {n : Node},
    d.Spells start gs n → x ∈ n.preorder →
      ∃ before seg after, gs = before ++ seg ++ after ∧
        d.Spells (start + Glyph.size before) seg x
  | start, gs, _, .atom hne hrun, hx => by
      rw [List.mem_singleton.1 hx]
      exact ⟨[], gs, [], by simp, .atom hne hrun⟩
  | start, _, _, @Spells.list _ _ first last blanks _ _ hfirst hblanks hinner hlast, hx => by
      rcases List.mem_cons.1 hx with rfl | hx
      · exact ⟨[], _, [], by simp, .list hfirst hblanks hinner hlast⟩
      · obtain ⟨before, seg, after, rfl, hseg⟩ := SpellsAll.of_mem_preorder hinner hx
        refine ⟨first :: (blanks ++ before), seg, after ++ [last], by simp, ?_⟩
        rw [Glyph.size_cons, Glyph.size_append]
        rw [Glyph.size_cons] at hseg
        simpa only [Nat.add_assoc] using hseg

theorem SpellsAll.of_mem_preorder : ∀ {start : Nat} {gs : List Glyph} {xs : List Node},
    d.SpellsAll start gs xs → x ∈ Tree.preorderAll xs →
      ∃ before seg after, gs = before ++ seg ++ after ∧
        d.Spells (start + Glyph.size before) seg x
  | _, _, _, .nil, hx => nomatch hx
  | start, _, _, @SpellsAll.cons _ _ gs blanks more _ _ hhead hblanks hmore _, hx => by
      rcases List.mem_append.1 hx with hx | hx
      · obtain ⟨before, seg, after, rfl, hseg⟩ := Spells.of_mem_preorder hhead hx
        exact ⟨before, seg, after ++ blanks ++ more, by simp, hseg⟩
      · obtain ⟨before, seg, after, rfl, hseg⟩ := SpellsAll.of_mem_preorder hmore hx
        refine ⟨gs ++ blanks ++ before, seg, after, by simp, ?_⟩
        rw [Glyph.size_append (gs ++ blanks)]
        simpa only [Nat.add_assoc] using hseg

end

end Dialect

/-! ## Reading what is spelled -/

theorem Mark.position_after_eq {d : Dialect} {m : Mark} {start : Nat} (hm : m.position = start)
    (gs : List Glyph) : (m.after d gs).position = start + Glyph.size gs := by
  rw [position_after, hm]
  rfl

namespace Reader

open Dialect

variable {d : Dialect}

mutual

/-- Whatever lists are open, the reader gets the expression that the glyphs spell. On the way it
records what there is to report on the expression, but for the last event. -/
theorem resume_spells : ∀ {start : Nat} {gs : List Glyph} {n : Node}, d.Spells start gs n →
    ∀ {rest : List Glyph}, d.Apart gs rest → ∀ {m : Mark}, m.position = start →
      ∃ events, (∀ (fs : List Frame) (ev : List Event),
        resume d ⟨m, fs, .seeking, ev⟩ (gs ++ rest) =
          resume d ⟨m.after d gs, fs, .complete n, events.reverse ++ ev⟩ rest) ∧
        ∀ chart : Chart, chart.Fits d m (gs ++ rest) → n.postorder.flatMap chart.reports =
          events ++ [.expression (.ok n) (chart.behind (m.after d gs).position)]
  | _, run, _, .atom hne hrun, rest, hapart, m, hm => by
      refine ⟨[], fun fs ev => ?_, fun chart _ => ?_⟩
      · rw [resume_atom hne hrun (hapart.head hne hrun), Mark.position_after_eq hm, hm]
        rfl
      · rw [Mark.position_after_eq hm]
        rfl
  | start, _, _, @Spells.list _ _ first last blanks inner xs hfirst hblanks hinner hlast,
      rest, _, m, hm => by
      have hhead : ∀ g ∈ (last :: rest).head?,
          d.isBlank g = false ∧ d.isConstituent g = false := by
        intro g hg
        cases hg
        rw [isBlank, isConstituent_eq_false_iff, hlast]
        exact ⟨rfl, nofun⟩
      obtain ⟨events, hread, hreports⟩ := resume_spellsAll hinner hhead
        (Mark.position_after_eq hm (first :: blanks))
      let m₂ := m.after d (first :: (blanks ++ inner))
      have hm₂ : (m.after d (first :: blanks)).after d inner = m₂ := by
        rw [← Mark.after_append, List.cons_append]
      have hmark : m₂.past .closing last = m.after d (first :: (blanks ++ inner) ++ [last]) := by
        rw [Mark.after_concat, hlast]
      have hposition : (m.after d (first :: (blanks ++ inner) ++ [last])).position = _ :=
        Mark.position_after_eq hm _
      refine ⟨events ++ [.expression (.error (endFailure "atom" m₂)) m₂,
        .listEnd (endFailure "atom" m₂)], fun fs ev => ?_, fun chart hchart => ?_⟩
      · calc resume d ⟨m, fs, .seeking, ev⟩ (first :: (blanks ++ inner) ++ [last] ++ rest)
            = resume d ⟨m, fs, .seeking, ev⟩ (first :: (blanks ++ (inner ++ last :: rest))) := by
              simp
          _ = resume d ⟨m.after d (first :: blanks), ⟨m.position, []⟩ :: fs, .seeking, ev⟩
                (inner ++ last :: rest) := by
              rw [resume_opening hfirst, resume_seeking_blanks hblanks, ← hfirst]
              rfl
          _ = resume d ⟨m.after d (first :: (blanks ++ inner) ++ [last]), fs,
                .complete (.list xs (.between start
                  (start + Glyph.size (first :: (blanks ++ inner) ++ [last])))), _⟩ rest := by
              rw [hread, hm₂, resume_closing hlast, hmark, hposition, hm, List.append_nil,
                List.reverse_reverse, List.reverse_append]
              rfl
      · have hsplit : first :: (blanks ++ inner) ++ [last] ++ rest =
            first :: blanks ++ (inner ++ last :: rest) := by simp
        have hlastMark := hchart.before (first :: (blanks ++ inner)) rest last (by simp)
        have hstop : chart.before (start + Glyph.size (first :: (blanks ++ inner) ++ [last])) =
            m₂ := by rw [← hposition, hlastMark]
        rw [hsplit] at hchart
        rw [Tree.postorder, List.flatMap_append, hreports chart hchart.after, hposition,
          List.flatMap_singleton, Chart.reports, Bounds.stopOffset_between, hstop,
          List.append_assoc]
        rfl

/-- The reader adds the expressions that the glyphs spell to the innermost list, and records what
there is to report on them. -/
theorem resume_spellsAll : ∀ {start : Nat} {gs : List Glyph} {xs : List Node},
    d.SpellsAll start gs xs → ∀ {rest : List Glyph},
    (∀ g ∈ rest.head?, d.isBlank g = false ∧ d.isConstituent g = false) →
    ∀ {m : Mark}, m.position = start →
      ∃ events, (∀ (f : Frame) (fs : List Frame) (ev : List Event),
        resume d ⟨m, f :: fs, .seeking, ev⟩ (gs ++ rest) =
          resume d ⟨m.after d gs, { f with items := xs.reverse ++ f.items } :: fs, .seeking,
            events.reverse ++ ev⟩ rest) ∧
        ∀ chart : Chart, chart.Fits d m (gs ++ rest) →
          (Tree.postorderAll xs).flatMap chart.reports = events
  | _, _, _, .nil, rest, _, m, _ => ⟨[], fun _ _ _ => rfl, fun _ _ => rfl⟩
  | start, _, _, @SpellsAll.cons _ _ gs blanks more x _ hx hblanks hmore hapart,
      rest, hrest, m, hm => by
      have hapart' : d.Apart gs (blanks ++ more ++ rest) :=
        hapart.append fun g hg => (hrest g hg).2
      have hhead : ∀ g ∈ (more ++ rest).head?, d.isBlank g = false :=
        hmore.head_append fun g hg => (hrest g hg).1
      obtain ⟨events, hread, hreports⟩ := resume_spells hx hapart' hm
      obtain ⟨events', hread', hreports'⟩ :=
        resume_spellsAll hmore hrest (Mark.position_after_eq hm (gs ++ blanks))
      refine ⟨events ++ .expression (.ok x) (m.after d (gs ++ blanks)) :: events',
        fun f fs ev => ?_, fun chart hchart => ?_⟩
      · rw [List.append_assoc gs, List.append_assoc gs, hread, List.append_assoc blanks,
          resume_complete_blanks hblanks, ← Mark.after_append, resume_handOver hhead, hread',
          ← Mark.after_append, List.append_assoc gs]
        simp
      · have hbehind := hchart.behind gs blanks (more ++ rest) (by simp) hblanks hhead
        have hwhole : chart.Fits d m (gs ++ (blanks ++ more ++ rest)) := by
          simpa only [List.append_assoc] using hchart
        rw [List.append_assoc] at hchart
        rw [Tree.postorderAll, List.flatMap_append, hreports chart hwhole,
          hreports' chart hchart.after, hbehind, List.append_assoc]
        rfl

end

variable {mark : Mark} {blanks gs tail : List Glyph} {n : Node}

/-- Reading a source that spells an expression: the expression, the place behind all of the source,
and what there is to report on the expression. -/
theorem readGlyphs_of_spells (hblanks : ∀ g ∈ blanks, d.isBlank g = true)
    (h : d.Spells (mark.position + Glyph.size blanks) gs n)
    (htail : ∀ g ∈ tail, d.isBlank g = true) :
    ∃ events, readGlyphs d true mark (blanks ++ gs ++ tail) =
        ⟨.ok n, none, mark.after d (blanks ++ gs ++ tail), events⟩ ∧
      ∀ chart : Chart, chart.Fits d mark (blanks ++ gs ++ tail) →
        n.postorder.flatMap chart.reports = events := by
  have hapart : d.Apart gs tail := by
    apply apart_of_head
    intro g hg
    have hblank := htail g (List.mem_of_mem_head? hg)
    exact isConstituent_eq_false_iff.2 (ne_constituent_of_isBlank hblank)
  obtain ⟨events, hread, hreports⟩ := resume_spells h hapart (Mark.position_after_eq rfl blanks)
  have hmark : ((mark.after d blanks).after d gs).after d tail =
      mark.after d (blanks ++ gs ++ tail) := by
    rw [Mark.after_append, Mark.after_append]
  refine ⟨events ++ [.expression (.ok n) (mark.after d (blanks ++ gs ++ tail))], ?_, ?_⟩
  · change resume d (start mark) _ = _
    rw [start, List.append_assoc, resume_seeking_blanks hblanks, hread]
    nth_rewrite 1 [← List.append_nil tail]
    rw [resume_complete_blanks htail, resume_complete_nil, hmark, List.append_nil,
      List.reverse_reverse, List.append_assoc]
  · intro chart hchart
    have hbehind := hchart.behind (blanks ++ gs) tail [] (by rw [List.append_nil]) htail
      (by simp)
    rw [List.append_assoc] at hchart
    rw [hreports chart hchart.after, ← Mark.after_append, hbehind]

/-- Parsing gives the expression that the source spells. -/
theorem whole_of_spells (hblanks : ∀ g ∈ blanks, d.isBlank g = true)
    (h : d.Spells (mark.position + Glyph.size blanks) gs n)
    (htail : ∀ g ∈ tail, d.isBlank g = true) (tracing : Bool) :
    (readGlyphs d tracing mark (blanks ++ gs ++ tail)).whole = .ok n := by
  obtain ⟨events, hread, -⟩ := readGlyphs_of_spells hblanks h htail
  cases tracing with
  | true =>
      rw [hread]
      rfl
  | false =>
      rw [readGlyphs_quiet, hread]
      rfl

end Reader

/-! ## What is read is spelled -/

namespace Dialect

variable {d : Dialect} {gs : List Glyph}

theorem lexemes_append_of_blank {blanks : List Glyph} (h : ∀ g ∈ blanks, d.isBlank g = true)
    (gs : List Glyph) : d.lexemes (blanks ++ gs) = d.lexemes gs := by
  induction blanks with
  | nil => rfl
  | cons g blanks ih =>
      rw [List.cons_append, lexemes_cons_of_isBlank (h g List.mem_cons_self)]
      exact ih fun x hx => h x (List.mem_cons_of_mem g hx)

/-- A source without lexemes is blank. -/
theorem isBlank_of_lexemes_eq_nil (h : d.lexemes gs = []) : ∀ g ∈ gs, d.isBlank g = true := by
  induction gs with
  | nil => exact nofun
  | cons g gs ih =>
      cases hg : d.isBlank g with
      | false => exact (lexemes_cons_ne_nil hg gs h).elim
      | true =>
          rw [lexemes_cons_of_isBlank hg] at h
          intro x hx
          rcases List.mem_cons.1 hx with rfl | hx
          · exact hg
          · exact ih h x hx

/-- Of glyphs `e ++ rest`, the part `e` is a lexeme: a bracket, or the longest run of
constituents. -/
inductive FirstLexeme (d : Dialect) : Lexeme → List Glyph → List Glyph → Prop where
  | opening {g : Glyph} {rest : List Glyph} (hg : d.classify g.char = .opening) :
      FirstLexeme d .opening [g] rest
  | closing {g : Glyph} {rest : List Glyph} (hg : d.classify g.char = .closing) :
      FirstLexeme d .closing [g] rest
  | atom {run rest : List Glyph} (hne : run ≠ []) (hrun : ∀ g ∈ run, d.isConstituent g = true)
      (hrest : ∀ g ∈ rest.head?, d.isConstituent g = false) :
      FirstLexeme d (.atom (Utf8.decodeLossy (run.flatMap Glyph.bytes))) run rest

/-- Every lexeme of a source has its place in it. -/
theorem exists_firstLexeme {l : Lexeme} {ls : List Lexeme} (h : d.lexemes gs = l :: ls) :
    ∃ blanks e rest, gs = blanks ++ e ++ rest ∧ (∀ g ∈ blanks, d.isBlank g = true) ∧
      d.FirstLexeme l e rest ∧ d.lexemes rest = ls := by
  have hsplit : gs.takeWhile d.isBlank ++ gs.dropWhile d.isBlank = gs :=
    List.takeWhile_append_dropWhile
  have hblanks : ∀ g ∈ gs.takeWhile d.isBlank, d.isBlank g = true :=
    fun _ hg => List.mem_takeWhile_imp hg
  rw [← hsplit, lexemes_append_of_blank hblanks] at h
  suffices hbody : ∃ e rest, gs.dropWhile d.isBlank = e ++ rest ∧ d.FirstLexeme l e rest ∧
      d.lexemes rest = ls by
    obtain ⟨e, rest, hbody, he, hrest⟩ := hbody
    refine ⟨_, e, rest, ?_, hblanks, he, hrest⟩
    rw [List.append_assoc, ← hbody, hsplit]
  cases hbody : gs.dropWhile d.isBlank with
  | nil =>
      rw [hbody] at h
      cases h
  | cons g body =>
      have hg : d.isBlank g = false := eq_false_of_mem_head?_dropWhile (by rw [hbody]; rfl)
      rw [hbody] at h
      cases hk : d.classify g.char with
      | newline | blank =>
          rw [isBlank, hk] at hg
          cases hg
      | opening =>
          rw [lexemes_cons_of_opening hk] at h
          cases h
          exact ⟨[g], body, rfl, .opening hk, rfl⟩
      | closing =>
          rw [lexemes_cons_of_closing hk] at h
          cases h
          exact ⟨[g], body, rfl, .closing hk, rfl⟩
      | constituent =>
          obtain ⟨run, rest, hrun, hne, hall, hrest⟩ := exists_run hk body
          rw [hrun, lexemes_append, lexemes_run hne hall] at h
          · cases h
            exact ⟨run, rest, hrun, .atom hne hall hrest, rfl⟩
          · exact apart_of_head hrest

mutual

/-- Glyphs whose lexemes begin with those of an expression spell an expression first. -/
theorem exists_spells : ∀ (t : Node) (start : Nat) (gs : List Glyph) (ls : List Lexeme),
    d.lexemes gs = t.lexemes ++ ls →
      ∃ blanks e rest n, gs = blanks ++ e ++ rest ∧ (∀ g ∈ blanks, d.isBlank g = true) ∧
        d.Spells (start + Glyph.size blanks) e n ∧ d.Apart e rest ∧ d.lexemes rest = ls
  | .atom v _, start, gs, ls, h => by
      obtain ⟨blanks, e, rest, hsplit, hblanks, he, hrest⟩ := exists_firstLexeme h
      cases he with
      | atom hne hrun hhead =>
          exact ⟨blanks, e, rest, _, hsplit, hblanks, .atom hne hrun, apart_of_head hhead, hrest⟩
  | .list ts _, start, gs, ls, h => by
      have hopen : d.lexemes gs = .opening :: (Node.lexemesAll ts ++ .closing :: ls) := by
        rw [h, Node.lexemes]
        simp
      obtain ⟨blanks, e, rest, hsplit, hblanks, he, hrest⟩ := exists_firstLexeme hopen
      cases he with
      | @opening first _ hfirst =>
          obtain ⟨blanks', inner, last, rest', xs, hsplit', hblanks', hinner, hlast, hrest'⟩ :=
            exists_spellsAll ts (start + Glyph.size blanks + Glyph.size [first]) rest ls hrest
          rw [Nat.add_assoc _ (Glyph.size [first]), ← Glyph.size_cons] at hinner
          refine ⟨blanks, first :: (blanks' ++ inner) ++ [last], rest', _, ?_, hblanks,
            .list hfirst hblanks' hinner hlast, ?_, hrest'⟩
          · rw [hsplit, hsplit']
            simp
          · intro g hg
            rw [List.getLast?_concat, Option.mem_some_iff] at hg
            intro g' _
            have hne : d.classify g.char ≠ .constituent := by
              rw [← hg, hlast]
              nofun
            rw [isConstituent_eq_false_iff.2 hne, Bool.false_and]

theorem exists_spellsAll : ∀ (ts : List Node) (start : Nat) (gs : List Glyph) (ls : List Lexeme),
    d.lexemes gs = Node.lexemesAll ts ++ .closing :: ls →
      ∃ blanks inner last rest xs, gs = blanks ++ inner ++ last :: rest ∧
        (∀ g ∈ blanks, d.isBlank g = true) ∧
        d.SpellsAll (start + Glyph.size blanks) inner xs ∧
        d.classify last.char = .closing ∧ d.lexemes rest = ls
  | [], start, gs, ls, h => by
      obtain ⟨blanks, e, rest, hsplit, hblanks, he, hrest⟩ := exists_firstLexeme h
      cases he with
      | @closing last _ hlast =>
          refine ⟨blanks, [], last, rest, [], ?_, hblanks, .nil, hlast, hrest⟩
          rw [hsplit]
          simp
  | t :: ts, start, gs, ls, h => by
      rw [Node.lexemesAll, List.append_assoc] at h
      obtain ⟨blanks, e, rest, x, hsplit, hblanks, hx, hapart, hrest⟩ :=
        exists_spells t start gs _ h
      obtain ⟨blanks', more, last, rest', xs, rfl, hblanks', hmore, hlast, hrest'⟩ :=
        exists_spellsAll ts (start + Glyph.size blanks + Glyph.size e) rest ls hrest
      rw [Nat.add_assoc _ (Glyph.size e), ← Glyph.size_append] at hmore
      refine ⟨blanks, e ++ blanks' ++ more, last, rest', x :: xs, ?_, hblanks,
        .cons hx hblanks' hmore hapart.of_append, hlast, hrest'⟩
      rw [hsplit]
      simp

end

end Dialect

/-- Where parsing succeeds, what lies ahead of the cursor spells the expression that it gives. -/
theorem spells_of_parse {d : Dialect} {c : Cursor} {n : Node}
    (h : (c.parse d false).outcome = .ok n) :
    ∃ blanks gs tail, Utf8.glyphs c.rest = blanks ++ gs ++ tail ∧
      (∀ g ∈ blanks, d.isBlank g = true) ∧
      d.Spells (c.mark.position + Glyph.size blanks) gs n ∧ ∀ g ∈ tail, d.isBlank g = true := by
  have hbeyond : (parseBytes d c.rest).beyond c.mark = .ok n := by
    rw [Cursor.parse_beyond] at h
    exact h
  cases halone : parseBytes d c.rest with
  | error f =>
      rw [halone] at hbeyond
      cases hbeyond
  | ok alone =>
      have hlexemes : d.lexemes (Utf8.glyphs c.rest) = alone.lexemes ++ [] := by
        rw [List.append_nil]
        exact (parseBytes_ok_iff d c.rest alone).1
          ⟨alone, halone, (Node.same_iff_lexemes_eq alone alone).2 rfl⟩
      obtain ⟨blanks, gs, tail, n', hsplit, hblanks, hn', -, htail⟩ :=
        Dialect.exists_spells alone c.mark.position _ _ hlexemes
      have hblank := Dialect.isBlank_of_lexemes_eq_nil htail
      have hwhole : (c.parse d false).outcome = .ok n' := by
        rw [Cursor.parse, hsplit]
        exact Reader.whole_of_spells hblanks hn' hblank false
      rw [h] at hwhole
      cases hwhole
      exact ⟨blanks, gs, tail, hsplit, hblanks, hn', hblank⟩

/-- Where parsing succeeds, the source spells the expression that parsing gives. -/
theorem spells_of_parseBytes {d : Dialect} {b : Bytes} {n : Node} (h : parseBytes d b = .ok n) :
    ∃ blanks gs tail, Utf8.glyphs b = blanks ++ gs ++ tail ∧
      (∀ g ∈ blanks, d.isBlank g = true) ∧ d.Spells (Glyph.size blanks) gs n ∧
      ∀ g ∈ tail, d.isBlank g = true := by
  obtain ⟨blanks, gs, tail, hsplit, hblanks, hn, htail⟩ := spells_of_parse h
  rw [Cursor.rest_ofBytes] at hsplit
  have hstart : Mark.origin.position + Glyph.size blanks = Glyph.size blanks := Nat.zero_add _
  rw [Cursor.ofBytes, hstart] at hn
  exact ⟨blanks, gs, tail, hsplit, hblanks, hn, htail⟩

end SexpReader
