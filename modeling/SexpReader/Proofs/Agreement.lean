import SexpReader.Proofs.Descent

/-!
# The two ways of reading agree

The machine keeps on a stack what the functions of the descent keep in their calls. So a call of
the descent is a piece of a run of the machine: whatever lists are open and whatever has been
recorded, the machine comes from the place where the call begins to the place where it ends, and
what the call returns is what the machine holds there or has recorded on the way.

A call can end in three ways. It returns an expression; or the input is at its end; or there is a
closing bracket where an expression should begin. In the last case the failure is one for want of
an atom, and the list around it finds its closing bracket where the cursor stands. This is why a
list never meets a wrong character.
-/

namespace SexpReader

namespace Reader

variable {d : Dialect} {m : Mark} {f : Frame} {fs : List Frame} {ev : List Event}
variable {g : Glyph} {gs : List Glyph} {node : Node}

/-- The reading that a reader comes to if some glyphs are ahead of it. -/
def resume (d : Dialect) (r : Reader) (gs : List Glyph) : Reading :=
  (gs.foldl (step d true) r).finish d true

theorem resume_seeking_blanks {blanks : List Glyph} (h : ∀ g ∈ blanks, d.isBlank g = true) :
    resume d ⟨m, fs, .seeking, ev⟩ (blanks ++ gs) =
      resume d ⟨m.after d blanks, fs, .seeking, ev⟩ gs := by
  induction blanks generalizing m with
  | nil => rfl
  | cons g blanks ih =>
      have hstep : step d true ⟨m, fs, .seeking, ev⟩ g =
          ⟨m.past (d.classify g.char) g, fs, .seeking, ev⟩ := by
        rcases CharClass.isBlank_iff.1 (h g List.mem_cons_self) with hk | hk <;>
          rw [step, hk] <;> rfl
      rw [List.cons_append, resume, List.foldl_cons, hstep]
      exact ih fun x hx => h x (List.mem_cons_of_mem g hx)

theorem resume_complete_blanks {blanks : List Glyph} (h : ∀ g ∈ blanks, d.isBlank g = true) :
    resume d ⟨m, fs, .complete node, ev⟩ (blanks ++ gs) =
      resume d ⟨m.after d blanks, fs, .complete node, ev⟩ gs := by
  induction blanks generalizing m with
  | nil => rfl
  | cons g blanks ih =>
      have hstep : step d true ⟨m, fs, .complete node, ev⟩ g =
          ⟨m.past (d.classify g.char) g, fs, .complete node, ev⟩ := by
        rcases CharClass.isBlank_iff.1 (h g List.mem_cons_self) with hk | hk <;>
          rw [step, hk] <;> rfl
      rw [List.cons_append, resume, List.foldl_cons, hstep]
      exact ih fun x hx => h x (List.mem_cons_of_mem g hx)

theorem resume_inAtom_run {start : Nat} {run more : List Glyph}
    (h : ∀ g ∈ more, d.isConstituent g = true) :
    resume d ⟨m, fs, .inAtom start run, ev⟩ (more ++ gs) =
      resume d ⟨m.after d more, fs, .inAtom start (more.reverse ++ run), ev⟩ gs := by
  induction more generalizing m run with
  | nil => rfl
  | cons g more ih =>
      have hk := Dialect.isConstituent_iff.1 (h g List.mem_cons_self)
      have hstep : step d true ⟨m, fs, .inAtom start run, ev⟩ g =
          ⟨m.past (d.classify g.char) g, fs, .inAtom start (g :: run), ev⟩ := by
        rw [step, hk]
        rfl
      rw [List.cons_append, resume, List.foldl_cons, hstep, List.reverse_cons, List.append_assoc]
      exact ih fun x hx => h x (List.mem_cons_of_mem g hx)

/-- A reader that is inside an atom goes on like one that has it, if the atom ends here. -/
theorem resume_inAtom_end {start : Nat} {run : List Glyph}
    (h : ∀ g ∈ gs.head?, d.isConstituent g = false) :
    resume d ⟨m, fs, .inAtom start run, ev⟩ gs =
      resume d ⟨m, fs, .complete (.atom (Utf8.decodeLossy (run.reverse.flatMap Glyph.bytes))
        (.between start m.position)), ev⟩ gs := by
  cases gs with
  | nil => cases fs <;> rfl
  | cons g gs =>
      have hk := Dialect.isConstituent_eq_false_iff.1 (h g rfl)
      have hstep : step d true ⟨m, fs, .inAtom start run, ev⟩ g =
          step d true ⟨m, fs, .complete (.atom (Utf8.decodeLossy (run.reverse.flatMap Glyph.bytes))
            (.between start m.position)), ev⟩ g := by
        simp only [step, stepAs, if_neg hk]
        unfold settle
        cases fs <;> rfl
      rw [resume, List.foldl_cons, hstep]
      rfl

/-- An atom is read. -/
theorem resume_atom {run : List Glyph} (hne : run ≠ [])
    (hrun : ∀ g ∈ run, d.isConstituent g = true)
    (hgs : ∀ g ∈ gs.head?, d.isConstituent g = false) :
    resume d ⟨m, fs, .seeking, ev⟩ (run ++ gs) =
      resume d ⟨m.after d run, fs,
        .complete (.atom (Utf8.decodeLossy (run.flatMap Glyph.bytes))
          (.between m.position (m.after d run).position)), ev⟩ gs := by
  cases run with
  | nil => exact (hne rfl).elim
  | cons g run =>
      have hk := Dialect.isConstituent_iff.1 (hrun g List.mem_cons_self)
      have hstep : step d true ⟨m, fs, .seeking, ev⟩ g =
          ⟨m.past (d.classify g.char) g, fs, .inAtom m.position [g], ev⟩ := by
        rw [step, hk]
        rfl
      have hmore : ∀ x ∈ run, d.isConstituent x = true :=
        fun x hx => hrun x (List.mem_cons_of_mem g hx)
      have hbytes : ((run.reverse ++ [g]).reverse) = g :: run := by simp
      calc resume d ⟨m, fs, .seeking, ev⟩ (g :: run ++ gs)
          = resume d ⟨m.past (d.classify g.char) g, fs, .inAtom m.position [g], ev⟩
              (run ++ gs) := by
            rw [List.cons_append, resume, List.foldl_cons, hstep]
            rfl
        _ = resume d ⟨m.after d (g :: run), fs,
              .inAtom m.position (run.reverse ++ [g]), ev⟩ gs := resume_inAtom_run hmore
        _ = _ := by rw [resume_inAtom_end hgs, hbytes]

/-- An opening bracket opens a list. -/
theorem resume_opening (hg : d.classify g.char = .opening) :
    resume d ⟨m, fs, .seeking, ev⟩ (g :: gs) =
      resume d ⟨m.past .opening g, ⟨m.position, []⟩ :: fs, .seeking, ev⟩ gs := by
  rw [resume, List.foldl_cons, step, hg]
  rfl

/-- A closing bracket ends the search for another element, and the list. -/
theorem resume_closing (hg : d.classify g.char = .closing) :
    resume d ⟨m, f :: fs, .seeking, ev⟩ (g :: gs) =
      resume d ⟨m.past .closing g, fs,
        .complete (.list f.items.reverse (.between f.start (m.past .closing g).position)),
        .listEnd (endFailure "atom" m) :: .expression (.error (endFailure "atom" m)) m :: ev⟩
        gs := by
  rw [resume, List.foldl_cons, step, hg]
  rfl

/-- A complete expression goes to the list around it. -/
theorem resume_handOver (h : ∀ g ∈ gs.head?, d.isBlank g = false) :
    resume d ⟨m, f :: fs, .complete node, ev⟩ gs =
      resume d ⟨m, { f with items := node :: f.items } :: fs, .seeking,
        .expression (.ok node) m :: ev⟩ gs := by
  cases gs with
  | nil => rfl
  | cons g gs =>
      have hg : (d.classify g.char).isBlank = false := h g rfl
      have hstep : step d true ⟨m, f :: fs, .complete node, ev⟩ g =
          step d true ⟨m, { f with items := node :: f.items } :: fs, .seeking,
            .expression (.ok node) m :: ev⟩ g := by
        simp only [step, stepAs, settle, hg]
        rfl
      rw [resume, List.foldl_cons, hstep]
      rfl

/-- The machine stops in front of a closing bracket that closes nothing. -/
theorem resume_stray (hg : d.classify g.char = .closing) :
    resume d ⟨m, [], .seeking, ev⟩ (g :: gs) =
      ⟨.error (endFailure "atom" m), some g.char, m,
        ev.reverse ++ [.expression (.error (endFailure "atom" m)) m]⟩ := by
  have hstep : step d true ⟨m, [], .seeking, ev⟩ g =
      ⟨m, [], .stopped (.error (endFailure "atom" m)) g.char,
        .expression (.error (endFailure "atom" m)) m :: ev⟩ := by
    rw [step, hg]
    rfl
  rw [resume, List.foldl_cons, hstep, foldl_step_of_stopped rfl, ← List.reverse_cons]
  rfl

/-- The machine stops in front of what comes after the outermost expression. -/
theorem resume_surplus (hg : d.isBlank g = false) :
    resume d ⟨m, [], .complete node, ev⟩ (g :: gs) =
      ⟨.ok node, some g.char, m, ev.reverse ++ [.expression (.ok node) m]⟩ := by
  have hk : (d.classify g.char).isBlank = false := hg
  have hstep : step d true ⟨m, [], .complete node, ev⟩ g =
      ⟨m, [], .stopped (.ok node) g.char, .expression (.ok node) m :: ev⟩ := by
    simp only [step, stepAs, settle, hk]
    rfl
  rw [resume, List.foldl_cons, hstep, foldl_step_of_stopped rfl, ← List.reverse_cons]
  rfl

theorem resume_complete_nil :
    resume d ⟨m, [], .complete node, ev⟩ [] =
      ⟨.ok node, none, m, ev.reverse ++ [.expression (.ok node) m]⟩ := by
  rw [← List.reverse_cons]
  rfl

theorem resume_nil :
    resume d ⟨m, fs, .seeking, ev⟩ [] =
      ⟨.error (if fs.isEmpty then endFailure "atom or list" m else endFailure d.closingName m),
        none, m, ev.reverse ++
          giveUp (endFailure d.closingName m) m (endFailure "atom or list" m) fs⟩ := rfl

end Reader

/-! ## The calls -/

namespace Cursor

open Reader

variable {d : Dialect} {b : Bytes} {m : Mark} {gs : List Glyph}

/-- The ways in which a call for an expression at `m` can end. -/
inductive ExpressionEnd (d : Dialect) (b : Bytes) (m : Mark) (gs : List Glyph) :
    Outcome → Mark → List Event → Prop where
  /-- There is an expression, with the blanks after it. -/
  | found {node : Node} {m' : Mark} {events : List Event} {rest : List Glyph}
      (hfaces : Faces ⟨b, m'⟩ rest) (hlt : rest.length < gs.length)
      (hhead : ∀ g ∈ rest.head?, d.isBlank g = false)
      (hresume : ∀ fs ev, resume d ⟨m, fs, .seeking, ev⟩ gs =
        resume d ⟨m', fs, .complete node, events.reverse ++ ev⟩ rest) :
      ExpressionEnd d b m gs (.ok node) m' (events ++ [.expression (.ok node) m'])
  /-- The input is at its end. -/
  | missing {f : Failure} {m' : Mark} {events : List Event} (hfaces : Faces ⟨b, m'⟩ [])
      (hresume : ∀ fs ev, resume d ⟨m, fs, .seeking, ev⟩ gs =
        ⟨.error (if fs.isEmpty then f else endFailure d.closingName m'), none, m',
          ev.reverse ++ (events ++ giveUp (endFailure d.closingName m') m' f fs)⟩) :
      ExpressionEnd d b m gs (.error f) m' events
  /-- There is a closing bracket. -/
  | closing {m' : Mark} {g : Glyph} {rest : List Glyph}
      (hfaces : Faces ⟨b, m'⟩ (g :: rest)) (hg : d.classify g.char = .closing)
      (hle : (g :: rest).length ≤ gs.length)
      (hresume : ∀ fs ev, resume d ⟨m, fs, .seeking, ev⟩ gs =
        resume d ⟨m', fs, .seeking, ev⟩ (g :: rest)) :
      ExpressionEnd d b m gs (.error (endFailure "atom" m')) m'
        [.expression (.error (endFailure "atom" m')) m']

/-- What is left to report where the input ends in a list, with the lists `fs` around it. -/
def unclosed (d : Dialect) (m : Mark) (fs : List Frame) : List Event :=
  .expression (.error (endFailure d.closingName m)) m ::
    giveUp (endFailure d.closingName m) m (endFailure d.closingName m) fs

/-- The ways in which a call for the elements of a list can end. -/
inductive ElementsEnd (d : Dialect) (b : Bytes) (m : Mark) (gs : List Glyph) :
    List Node → Mark → List Event → Prop where
  | missing {nodes : List Node} {m' : Mark} {events : List Event}
      (hfaces : Faces ⟨b, m'⟩ [])
      (hresume : ∀ f fs ev, resume d ⟨m, f :: fs, .seeking, ev⟩ gs =
        ⟨.error (endFailure d.closingName m'), none, m',
          ev.reverse ++ (events ++ unclosed d m' fs)⟩) :
      ElementsEnd d b m gs nodes m' events
  | closing {nodes : List Node} {m' : Mark} {events : List Event} {g : Glyph}
      {rest : List Glyph} (hfaces : Faces ⟨b, m'⟩ (g :: rest))
      (hg : d.classify g.char = .closing) (hle : (g :: rest).length ≤ gs.length)
      (hresume : ∀ f fs ev, resume d ⟨m, f :: fs, .seeking, ev⟩ gs =
        resume d ⟨m'.past .closing g, fs, .complete (.list (f.items.reverse ++ nodes)
          (.between f.start (m'.past .closing g).position)), events.reverse ++ ev⟩ rest) :
      ElementsEnd d b m gs nodes m' events

/-- The ways in which a call for the rest of a list can end. -/
inductive ListEnd (d : Dialect) (b : Bytes) (start : Nat) (m : Mark) (gs : List Glyph) :
    Outcome → Mark → List Event → Prop where
  | found {node : Node} {m' : Mark} {events : List Event} {rest : List Glyph}
      (hfaces : Faces ⟨b, m'⟩ rest) (hlt : rest.length < gs.length)
      (hresume : ∀ fs ev, resume d ⟨m, ⟨start, []⟩ :: fs, .seeking, ev⟩ gs =
        resume d ⟨m', fs, .complete node, events.reverse ++ ev⟩ rest) :
      ListEnd d b start m gs (.ok node) m' events
  | missing {m' : Mark} {events : List Event} (hfaces : Faces ⟨b, m'⟩ [])
      (hresume : ∀ fs ev, resume d ⟨m, ⟨start, []⟩ :: fs, .seeking, ev⟩ gs =
        ⟨.error (endFailure d.closingName m'), none, m',
          ev.reverse ++ (events ++ unclosed d m' fs)⟩) :
      ListEnd d b start m gs (.error (endFailure d.closingName m')) m' events

/-- Calls for an expression end if there are at most `n` glyphs ahead. -/
def EndsWithin (d : Dialect) (b : Bytes) (n : Nat) : Prop :=
  ∀ m gs, Faces ⟨b, m⟩ gs → gs.length ≤ n →
    ∃ outcome m' events, expression d ⟨b, m⟩ = pure (outcome, ⟨b, m'⟩, events) ∧
      ExpressionEnd d b m gs outcome m' events

/-- The blanks ahead are skipped, and then nothing or something else is ahead. -/
theorem skipBlanks_ends (d : Dialect) (h : Faces ⟨b, m⟩ gs) :
    ∃ m' rest, skipBlanks d ⟨b, m⟩ = pure ⟨b, m'⟩ ∧ Faces ⟨b, m'⟩ rest ∧
      rest.length ≤ gs.length ∧ (∀ g ∈ rest.head?, d.isBlank g = false) ∧
      (∀ fs ev, resume d ⟨m, fs, .seeking, ev⟩ gs = resume d ⟨m', fs, .seeking, ev⟩ rest) ∧
      ∀ node fs ev, resume d ⟨m, fs, .complete node, ev⟩ gs =
        resume d ⟨m', fs, .complete node, ev⟩ rest := by
  have hsplit : gs.takeWhile d.isBlank ++ gs.dropWhile d.isBlank = gs :=
    List.takeWhile_append_dropWhile
  have hblank : ∀ g ∈ gs.takeWhile d.isBlank, d.isBlank g = true :=
    fun _ hg => List.mem_takeWhile_imp hg
  refine ⟨_, gs.dropWhile d.isBlank, skipBlanks_eq h, ?_, ?_, ?_, ?_, ?_⟩
  · refine Faces.after (d := d) (c := ⟨b, m⟩) ?_
    rw [hsplit]
    exact h
  · exact (List.dropWhile_suffix d.isBlank).length_le
  · exact fun g hg => Dialect.eq_false_of_mem_head?_dropWhile hg
  · intro fs ev
    nth_rewrite 1 [← hsplit]
    exact resume_seeking_blanks hblank
  · intro node fs ev
    nth_rewrite 1 [← hsplit]
    exact resume_complete_blanks hblank

/-! ### Elements and lists -/

theorem elements_ends {n : Nat} (hn : EndsWithin d b n) (h : Faces ⟨b, m⟩ gs)
    (hgs : gs.length ≤ n) :
    ∃ nodes m' events, elements d ⟨b, m⟩ = pure (nodes, ⟨b, m'⟩, events) ∧
      ElementsEnd d b m gs nodes m' events := by
  induction hlen : gs.length using Nat.strongRecOn generalizing m gs with
  | ind k ih =>
      obtain ⟨m₁, gs₁, hskip, hfaces, hle, -, hseek, -⟩ := skipBlanks_ends d h
      obtain ⟨outcome, m₂, events, hcall, hend⟩ := hn _ _ hfaces (hle.trans hgs)
      cases hend with
      | @missing f _ _ hfaces₂ hresume =>
          refine ⟨[], m₂, events ++ [.listEnd f], ?_, .missing hfaces₂ ?_⟩
          · rw [elements, hskip, pure_bind, hcall]
            rfl
          · intro f' fs ev
            rw [hseek, hresume, List.append_assoc]
            rfl
      | @closing _ g rest hfaces₂ hg hle₂ hresume =>
          refine ⟨[], m₂, [.expression (.error (endFailure "atom" m₂)) m₂,
            .listEnd (endFailure "atom" m₂)], ?_, .closing hfaces₂ hg (hle₂.trans hle) ?_⟩
          · rw [elements, hskip, pure_bind, hcall]
            rfl
          · intro f fs ev
            rw [hseek, hresume, resume_closing hg, List.append_nil]
            rfl
      | @found node _ events₁ rest hfaces₂ hlt hhead hresume =>
          have hlt₂ : rest.length < k := by omega
          obtain ⟨nodes, m₃, events₂, hmore, hend⟩ := ih _ hlt₂ hfaces₂ (by omega) rfl
          have hstep (f : Frame) (fs : List Frame) (ev : List Event) :
              resume d ⟨m, f :: fs, .seeking, ev⟩ gs =
                resume d ⟨m₂, { f with items := node :: f.items } :: fs, .seeking,
                  .expression (.ok node) m₂ :: (events₁.reverse ++ ev)⟩ rest := by
            rw [hseek, hresume, resume_handOver hhead]
          refine ⟨node :: nodes, m₃, events₁ ++ [.expression (.ok node) m₂] ++ events₂, ?_, ?_⟩
          · rw [elements, hskip, pure_bind, hcall, pure_bind]
            dsimp only
            rw [hmore]
            rfl
          · cases hend with
            | missing hfaces₃ hresume₃ =>
                refine .missing hfaces₃ ?_
                intro f fs ev
                rw [hstep, hresume₃]
                simp
            | closing hfaces₃ hg hle₃ hresume₃ =>
                refine .closing hfaces₃ hg (by omega) ?_
                intro f fs ev
                rw [hstep, hresume₃]
                simp

theorem list_ends {n : Nat} (hn : EndsWithin d b n) (start : Nat) (h : Faces ⟨b, m⟩ gs)
    (hgs : gs.length ≤ n) :
    ∃ outcome m' events, list d start ⟨b, m⟩ = pure (outcome, ⟨b, m'⟩, events) ∧
      ListEnd d b start m gs outcome m' events := by
  obtain ⟨m₁, gs₁, hskip, hfaces, hle, -, hseek, -⟩ := skipBlanks_ends d h
  obtain ⟨nodes, m₂, events, hcall, hend⟩ := elements_ends hn hfaces (hle.trans hgs)
  cases hend with
  | missing hfaces₂ hresume =>
      refine ⟨_, m₂, events, ?_, .missing hfaces₂ ?_⟩
      · rw [list, hskip, pure_bind, hcall, pure_bind]
        dsimp only
        rw [hfaces₂.isEmpty_nil]
        rfl
      · intro fs ev
        rw [hseek, hresume]
  | @closing g rest hfaces₂ hg hle₂ hresume =>
      refine ⟨.ok (.list nodes (.between start (m₂.past .closing g).position)),
        m₂.past .closing g, events, ?_, .found (hfaces₂.past .closing) ?_ ?_⟩
      · rw [list, hskip, pure_bind, hcall, pure_bind]
        dsimp only
        rw [hfaces₂.isEmpty_cons, hfaces₂.char, hfaces₂.accept,
          if_pos (Dialect.eq_closing_of_classify hg)]
        rfl
      · rw [List.length_cons] at hle₂
        omega
      · intro fs ev
        rw [hseek, hresume]
        rfl

/-! ### Expressions -/

/-- A cursor that faces no blank stays. -/
theorem skipBlanks_eq_of_head {c : Cursor} (h : c.Faces gs)
    (hgs : ∀ g ∈ gs.head?, d.isBlank g = false) : c.skipBlanks d = pure c := by
  rw [skipBlanks_eq h]
  cases gs with
  | nil => rfl
  | cons g gs =>
      rw [List.takeWhile_cons_of_neg (Bool.eq_false_iff.1 (hgs g rfl))]
      rfl

theorem expression_eq_list {c c₁ : Cursor} {g : Glyph} (hskip : c.skipBlanks d = pure c₁)
    (h : c₁.Faces (g :: gs)) (hg : g.char = d.opening) :
    c.expression d = (do
      let (outcome, c', events) ← (c₁.past .opening g).list d c₁.mark.position
      let c' ← c'.skipBlanks d
      return (outcome, c', events ++ [.expression outcome c'.mark])) := by
  rw [expression, hskip, pure_bind, h.isEmpty_cons, h.accept, if_pos hg]
  rfl

theorem expression_eq_atom {c c₁ : Cursor} {g : Glyph} (hskip : c.skipBlanks d = pure c₁)
    (h : c₁.Faces (g :: gs)) (hg : g.char ≠ d.opening) :
    c.expression d = (do
      let (outcome, c') ← c₁.atom d
      let c' ← c'.skipBlanks d
      return (outcome, c', [.expression outcome c'.mark])) := by
  rw [expression, hskip, pure_bind, h.isEmpty_cons, h.accept, if_neg hg, Descent.of_ok]
  simp

section

variable {m₁ : Mark} {g : Glyph} {gs₁ : List Glyph}

/-- An opening bracket begins a list. -/
theorem expression_ends_of_opening (ih : EndsWithin d b gs₁.length)
    (hskip : skipBlanks d ⟨b, m⟩ = pure ⟨b, m₁⟩) (hfaces : Faces ⟨b, m₁⟩ (g :: gs₁))
    (hle : gs₁.length < gs.length)
    (hseek : ∀ fs ev, resume d ⟨m, fs, .seeking, ev⟩ gs =
      resume d ⟨m₁, fs, .seeking, ev⟩ (g :: gs₁))
    (hk : d.classify g.char = .opening) :
    ∃ outcome m' events, expression d ⟨b, m⟩ = pure (outcome, ⟨b, m'⟩, events) ∧
      ExpressionEnd d b m gs outcome m' events := by
  obtain ⟨outcome, m₂, events, hcall, hend⟩ :=
    list_ends ih m₁.position (hfaces.past .opening) (Nat.le_refl _)
  rw [expression_eq_list hskip hfaces (Dialect.eq_opening_of_classify hk)]
  change ∃ outcome m' events, (list d m₁.position ⟨b, m₁.past .opening g⟩ >>= _) = _ ∧ _
  rw [hcall, pure_bind]
  dsimp only
  cases hend with
  | found hfaces₂ hlt₂ hresume =>
      obtain ⟨m₃, gs₃, hskip₃, hfaces₃, hle₃, hhead₃, -, hcomplete⟩ := skipBlanks_ends d hfaces₂
      refine ⟨_, m₃, _, by rw [hskip₃, pure_bind], .found hfaces₃ (by omega) hhead₃ ?_⟩
      intro fs ev
      rw [hseek, resume_opening hk, ← hcomplete]
      exact hresume fs ev
  | missing hfaces₂ hresume =>
      refine ⟨_, m₂, _, by rw [skipBlanks_eq_of_head hfaces₂ nofun, pure_bind],
        .missing hfaces₂ ?_⟩
      intro fs ev
      rw [hseek, resume_opening hk, ite_self, List.append_assoc]
      exact hresume fs ev

/-- Where a closing bracket is, no expression begins. -/
theorem expression_ends_of_closing
    (hskip : skipBlanks d ⟨b, m⟩ = pure ⟨b, m₁⟩) (hfaces : Faces ⟨b, m₁⟩ (g :: gs₁))
    (hle : (g :: gs₁).length ≤ gs.length)
    (hseek : ∀ fs ev, resume d ⟨m, fs, .seeking, ev⟩ gs =
      resume d ⟨m₁, fs, .seeking, ev⟩ (g :: gs₁))
    (hk : d.classify g.char = .closing) :
    ∃ outcome m' events, expression d ⟨b, m⟩ = pure (outcome, ⟨b, m'⟩, events) ∧
      ExpressionEnd d b m gs outcome m' events := by
  have hblank : (d.classify g.char).isBlank = false := by
    rw [hk]
    rfl
  have hg : g.char ≠ d.opening := by
    rw [Ne, ← Dialect.classify_eq_opening_iff hblank, hk]
    nofun
  have hhead : ∀ x ∈ (g :: gs₁).head?, d.isBlank x = false := by
    intro x hx
    cases hx
    exact hblank
  refine ⟨_, m₁, _, ?_, .closing hfaces hk hle hseek⟩
  rw [expression_eq_atom hskip hfaces hg, atom_eq_error hfaces (by rw [hk]; nofun), pure_bind]
  dsimp only
  rw [skipBlanks_eq_of_head hfaces hhead, pure_bind]

/-- A constituent begins an atom. -/
theorem expression_ends_of_constituent
    (hskip : skipBlanks d ⟨b, m⟩ = pure ⟨b, m₁⟩) (hfaces : Faces ⟨b, m₁⟩ (g :: gs₁))
    (hle : (g :: gs₁).length ≤ gs.length)
    (hseek : ∀ fs ev, resume d ⟨m, fs, .seeking, ev⟩ gs =
      resume d ⟨m₁, fs, .seeking, ev⟩ (g :: gs₁))
    (hk : d.classify g.char = .constituent) :
    ∃ outcome m' events, expression d ⟨b, m⟩ = pure (outcome, ⟨b, m'⟩, events) ∧
      ExpressionEnd d b m gs outcome m' events := by
  have hg : g.char ≠ d.opening := by
    rw [Ne, ← Dialect.classify_eq_opening_iff (by rw [hk]; rfl), hk]
    nofun
  obtain ⟨run, gs₂, hsplit, hne, hrun, hrest⟩ := Dialect.exists_run hk gs₁
  have hatom : Faces ⟨b, m₁⟩ (run ++ gs₂) := by
    rw [← hsplit]
    exact hfaces
  have hfaces₂ : Faces ⟨b, m₁.after d run⟩ gs₂ := hatom.after
  obtain ⟨m₃, gs₃, hskip₃, hfaces₃, hle₃, hhead₃, -, hcomplete⟩ := skipBlanks_ends d hfaces₂
  let node : Node := .atom (Utf8.decodeLossy (run.flatMap Glyph.bytes))
    (.between m₁.position (m₁.after d run).position)
  have hcall : atom d ⟨b, m₁⟩ = pure (.ok node, ⟨b, m₁.after d run⟩) :=
    atom_eq_ok hatom hne hrun hrest
  refine ⟨.ok node, m₃, [] ++ [.expression (.ok node) m₃], ?_, .found hfaces₃ ?_ hhead₃ ?_⟩
  · rw [expression_eq_atom hskip hfaces hg, hcall, pure_bind]
    dsimp only
    rw [hskip₃, pure_bind]
    rfl
  · have hlen := congrArg List.length hsplit
    have hpos := List.length_pos_of_ne_nil hne
    rw [List.length_append] at hlen
    omega
  · intro fs ev
    rw [hseek, hsplit, resume_atom hne hrun hrest, ← hcomplete]
    rfl

end

theorem expression_ends (d : Dialect) (b : Bytes) (n : Nat) : EndsWithin d b n := by
  induction n using Nat.strongRecOn with
  | ind n ih =>
      intro m gs h hgs
      obtain ⟨m₁, gs₁, hskip, hfaces, hle, hhead, hseek, -⟩ := skipBlanks_ends d h
      cases gs₁ with
      | nil =>
          refine ⟨.error (endFailure "atom or list" m₁), m₁, [], ?_, .missing hfaces ?_⟩
          · rw [expression, hskip, pure_bind, hfaces.isEmpty_nil]
            rfl
          · intro fs ev
            rw [hseek, resume_nil]
            rfl
      | cons g gs₂ =>
          have hblank : (d.classify g.char).isBlank = false := hhead g rfl
          have hlt : gs₂.length < gs.length := by
            rw [List.length_cons] at hle
            omega
          cases hk : d.classify g.char with
          | newline | blank =>
              rw [hk] at hblank
              cases hblank
          | opening =>
              exact expression_ends_of_opening (ih _ (by omega)) hskip hfaces hlt hseek hk
          | closing => exact expression_ends_of_closing hskip hfaces hle hseek hk
          | constituent => exact expression_ends_of_constituent hskip hfaces hle hseek hk

/-! ## The agreement -/

/-- A list never fails because of a character: where its elements end, there is its closing
bracket, or the input is at its end. -/
theorem list_fails_for_want (d : Dialect) (start : Nat) {c : Cursor}
    (hc : c.mark.position ≤ c.size) :
    ∃ outcome c' events, c.list d start = pure (outcome, c', events) ∧
      ∀ f, outcome = .error f → f = endFailure d.closingName c'.mark := by
  obtain ⟨outcome, m', events, hcall, hend⟩ :=
    list_ends (expression_ends d c.buffer _) start ⟨hc, rfl⟩ (Nat.le_refl _)
  refine ⟨outcome, ⟨c.buffer, m'⟩, events, hcall, ?_⟩
  intro f hf
  cases hend with
  | found => cases hf
  | missing =>
      cases hf
      rfl

/-- The descent comes to an end, never reads past the end of the buffer, and finds what the machine
finds, with the same trace. -/
theorem descend_eq (d : Dialect) {c : Cursor} (hc : c.mark.position ≤ c.size) :
    c.descend d = pure (c.parse d true) := by
  have hparse : c.parse d true =
      ⟨(resume d ⟨c.mark, [], .seeking, []⟩ (Utf8.glyphs c.rest)).whole,
        ⟨c.buffer, (resume d ⟨c.mark, [], .seeking, []⟩ (Utf8.glyphs c.rest)).mark⟩,
        (resume d ⟨c.mark, [], .seeking, []⟩ (Utf8.glyphs c.rest)).events⟩ := rfl
  obtain ⟨outcome, m', events, hcall, hend⟩ :=
    expression_ends d c.buffer _ c.mark _ ⟨hc, rfl⟩ (Nat.le_refl _)
  change c.expression d = _ at hcall
  rw [descend, hcall, pure_bind, hparse]
  dsimp only
  cases hend with
  | @missing f _ _ hfaces hresume =>
      rw [hfaces.isEmpty_nil, hresume]
      simp [Reading.whole, giveUp]
  | closing hfaces hg hle hresume =>
      rw [hfaces.isEmpty_cons, hfaces.char, hresume, resume_stray hg]
      rfl
  | @found node _ events₁ rest hfaces hlt hhead hresume =>
      cases rest with
      | nil =>
          rw [hfaces.isEmpty_nil, hresume, resume_complete_nil]
          simp [Reading.whole]
      | cons g rest =>
          rw [hfaces.isEmpty_cons, hfaces.char, hresume, resume_surplus (hhead g rfl)]
          simp [Reading.whole, Descent.of_ok]

end Cursor

end SexpReader
