import SexpReader.Proofs.Agreement
import SexpReader.Proofs.Layout

/-!
# Which failure is reported

The outcome of parsing is read off the layout of the source: one layout for each sort of failure,
and one for success. Since every source has exactly one layout, each of these statements has a
converse, and no other failure is ever reported.

Inside a list, the attempt to read one more element may fail while the list goes on to be
complete. Such failures are only seen in the trace, and they too always tell of something that was
missing, never of a character. A list that is read by descent could fail because of the character
where its end should be, but it never does.
-/

namespace SexpReader

/-- The outcome is a failure with this cause and this expectation, in some line and column. -/
def Outcome.FailsWith (o : Outcome) (cause : Cause) (expected : Text) : Prop :=
  ∃ line column, o = .error ⟨cause, expected, line, column⟩

theorem Outcome.FailsWith.eq_of_error {o : Outcome} {cause : Cause} {expected : Text}
    (h : o.FailsWith cause expected) {f : Failure} (hf : o = .error f) :
    f.cause = cause ∧ f.expected = expected := by
  obtain ⟨line, column, rfl⟩ := h
  cases hf
  exact ⟨rfl, rfl⟩

theorem Outcome.FailsWith.unique {o : Outcome} {cause cause' : Cause} {expected expected' : Text}
    (h : o.FailsWith cause expected) (h' : o.FailsWith cause' expected') :
    cause = cause' ∧ expected = expected' := by
  obtain ⟨line, column, hf⟩ := h
  exact h'.eq_of_error hf

theorem Outcome.FailsWith.ne_ok {o : Outcome} {cause : Cause} {expected : Text}
    (h : o.FailsWith cause expected) (n : Node) : o ≠ .ok n := by
  obtain ⟨line, column, rfl⟩ := h
  nofun

/-- The failure that an event reports, if it reports one. -/
def Event.failure? : Event → Option Failure
  | .expression (.error failure) _ | .listEnd failure => some failure
  | .expression (.ok _) _ => none

namespace Dialect

variable {d : Dialect}

/-- In a source without blanks at its front, `c` is the first character that belongs to no
expression: a stray closing bracket, or what comes after the first expression and the blanks
behind it. -/
def Oversteps (d : Dialect) (gs : List Glyph) (c : CodePoint) : Prop :=
  (∃ g ∈ gs.head?, d.classify g.char = .closing ∧ g.char = c) ∨
    ∃ e rest, gs = e ++ rest ∧ d.FirstExpression e rest ∧
      ∃ g ∈ (rest.dropWhile d.isBlank).head?, g.char = c

theorem isBlank_of_mem_takeWhile {gs : List Glyph} :
    ∀ g ∈ gs.takeWhile d.isBlank, d.isBlank g = true :=
  fun _ h => List.mem_takeWhile_imp h

/-- The five layouts of a source. -/
theorem layout_cases (d : Dialect) (gs : List Glyph) :
    (∀ g ∈ gs, d.isBlank g = true) ∨
      (∃ g ∈ (gs.dropWhile d.isBlank).head?, d.classify g.char = .closing) ∨
      ((∃ g ∈ (gs.dropWhile d.isBlank).head?, d.classify g.char = .opening) ∧
        d.Unclosed (gs.dropWhile d.isBlank)) ∨
      ∃ e rest, gs.dropWhile d.isBlank = e ++ rest ∧ d.FirstExpression e rest := by
  cases hbody : gs.dropWhile d.isBlank with
  | nil =>
      left
      exact List.dropWhile_eq_nil_iff.1 hbody
  | cons g body =>
      right
      have hhead : g ∈ (gs.dropWhile d.isBlank).head? := by
        rw [hbody]
        rfl
      have hg := eq_false_of_mem_head?_dropWhile hhead
      cases hk : d.classify g.char with
      | newline | blank =>
          rw [isBlank, hk] at hg
          cases hg
      | closing => exact Or.inl ⟨g, rfl, hk⟩
      | opening =>
          right
          have hhead : ∀ x ∈ (g :: body).head?, d.classify x.char = .opening := by
            intro x hx
            cases hx
            exact hk
          rcases unclosed_or_exists_list hhead with h | ⟨e, g', rest, hsplit, he, hg', hbalance⟩
          · exact Or.inl ⟨⟨g, rfl, hk⟩, h⟩
          · right
            refine ⟨e ++ [g'], rest, ?_, .list he hg' hbalance⟩
            rw [hsplit, List.append_assoc]
            rfl
      | constituent =>
          right
          right
          obtain ⟨e, rest, hsplit, hne, he, hrest⟩ := exists_run hk body
          exact ⟨e, rest, hsplit, .atom hne he hrest⟩

end Dialect

namespace Reader

variable {d : Dialect} {tracing : Bool} {mark : Mark} {gs : List Glyph}

/-- Blanks at the front of a source leave the outline as it is. -/
theorem outline_append_of_blank (gs hs : List Glyph) :
    (Outline.seeking 0).after d (gs.takeWhile d.isBlank ++ hs) =
      (Outline.seeking 0).after d hs := by
  rw [Outline.after_append,
    Outline.after_seeking_of_blank 0 Dialect.isBlank_of_mem_takeWhile]

theorem whole_of_blank (h : ∀ g ∈ gs, d.isBlank g = true) :
    (readGlyphs d tracing mark gs).whole.FailsWith .endOfInput "atom or list" :=
  ⟨_, _, whole_of_seeking (Outline.after_seeking_of_blank 0 h) mark⟩

theorem whole_of_unclosed (hne : gs.dropWhile d.isBlank ≠ [])
    (h : d.Unclosed (gs.dropWhile d.isBlank)) :
    (readGlyphs d tracing mark gs).whole.FailsWith .endOfInput d.closingName := by
  have hpos := h _ hne (List.prefix_refl _)
  have hdepth := Outline.depth?_of_unclosed hne h
  obtain ⟨n, hn⟩ : ∃ n, d.opens (gs.dropWhile d.isBlank) - d.closes (gs.dropWhile d.isBlank) =
      n + 1 := ⟨_, (Nat.succ_pred (by omega)).symm⟩
  rw [hn, ← outline_append_of_blank gs, List.takeWhile_append_dropWhile] at hdepth
  exact ⟨_, _, whole_of_depth hdepth mark⟩

theorem whole_of_stray {g : Glyph} (hg : g ∈ (gs.dropWhile d.isBlank).head?)
    (hk : d.classify g.char = .closing) :
    (readGlyphs d tracing mark gs).whole.FailsWith (.unexpected [g.char]) "end of input" := by
  obtain ⟨rest, hrest⟩ := List.head?_eq_some_iff.1 (Option.mem_def.1 hg)
  have hsplit : gs = gs.takeWhile d.isBlank ++ g :: rest := by
    rw [← hrest, List.takeWhile_append_dropWhile]
  have hblank : (Outline.seeking 0).after d (gs.takeWhile d.isBlank) = .seeking 0 :=
    Outline.after_seeking_of_blank 0 Dialect.isBlank_of_mem_takeWhile
  rw [hsplit]
  exact ⟨_, _, (whole_of_stop (by rw [hblank]; nofun) (by rw [hblank, hk]; rfl) mark rest).2⟩

/-- A source that begins with a complete expression. -/
theorem whole_of_firstExpression {e rest : List Glyph} (hsplit : gs.dropWhile d.isBlank = e ++ rest)
    (h : d.FirstExpression e rest) :
    (rest.dropWhile d.isBlank = [] → ∃ n, (readGlyphs d tracing mark gs).whole = .ok n) ∧
      ∀ g ∈ (rest.dropWhile d.isBlank).head?,
        (readGlyphs d tracing mark gs).whole.FailsWith (.unexpected [g.char]) "end of input" := by
  have hgs : gs = gs.takeWhile d.isBlank ++ (e ++ rest.takeWhile d.isBlank) ++
      rest.dropWhile d.isBlank := by
    rw [List.append_assoc, List.append_assoc, List.takeWhile_append_dropWhile, ← hsplit,
      List.takeWhile_append_dropWhile]
  have hrest : d.FirstExpression e (rest.takeWhile d.isBlank ++ rest.dropWhile d.isBlank) := by
    rw [List.takeWhile_append_dropWhile]
    exact h
  obtain ⟨hdone, hstop⟩ :=
    Outline.after_firstExpression_blanks hrest Dialect.isBlank_of_mem_takeWhile
  rw [← outline_append_of_blank gs] at hdone hstop
  constructor
  · intro hnil
    rw [hnil, List.append_nil] at hgs
    rw [← hgs] at hdone
    exact whole_of_isDone hdone mark
  · intro g hg
    obtain ⟨tail, htail⟩ := List.head?_eq_some_iff.1 (Option.mem_def.1 hg)
    rw [htail] at hgs
    rw [hgs]
    have hne : (Outline.seeking 0).after d (gs.takeWhile d.isBlank ++
        (e ++ rest.takeWhile d.isBlank)) ≠ .stopped := by
      rcases hdone with h | h <;> rw [h] <;> nofun
    exact ⟨_, _, (whole_of_stop hne
      (hstop g hg (Dialect.eq_false_of_mem_head?_dropWhile hg)) mark tail).2⟩

/-! ## The trace -/

/-- Whatever an event reports as failed has failed for want of something. -/
def OnlyMissing (events : List Event) : Prop :=
  ∀ e ∈ events, ∀ f ∈ e.failure?, f.cause = .endOfInput

theorem onlyMissing_cons {e : Event} {events : List Event}
    (he : ∀ f ∈ e.failure?, f.cause = .endOfInput) (h : OnlyMissing events) :
    OnlyMissing (e :: events) := by
  intro x hx
  rcases List.mem_cons.1 hx with rfl | hx
  · exact he
  · exact h x hx

theorem onlyMissing_record {e : Event} {r : Reader}
    (he : ∀ f ∈ e.failure?, f.cause = .endOfInput) (h : OnlyMissing r.events) :
    OnlyMissing (r.record tracing e).events := by
  cases tracing with
  | false => exact h
  | true => exact onlyMissing_cons he h

theorem onlyMissing_seek (k : CharClass) (g : Glyph) {r : Reader} (h : OnlyMissing r.events) :
    OnlyMissing (r.seek tracing k g).events := by
  have hatom : ∀ f ∈ (Event.expression (.error (endFailure "atom" r.mark)) r.mark).failure?,
      f.cause = .endOfInput := by
    intro f hf
    cases hf
    rfl
  have hend : ∀ f ∈ (Event.listEnd (endFailure "atom" r.mark)).failure?,
      f.cause = .endOfInput := by
    intro f hf
    cases hf
    rfl
  have hrecord : OnlyMissing (r.record tracing
      (.expression (.error (endFailure "atom" r.mark)) r.mark)).events :=
    onlyMissing_record hatom h
  cases k with
  | newline | blank | opening | constituent => exact h
  | closing =>
      unfold seek
      dsimp only
      split
      · exact hrecord
      · exact onlyMissing_record hend hrecord

theorem onlyMissing_settle (node : Node) (k : CharClass) (g : Glyph) {r : Reader}
    (h : OnlyMissing r.events) : OnlyMissing (r.settle tracing node k g).events := by
  have hrecord : OnlyMissing (r.record tracing (.expression (.ok node) r.mark)).events :=
    onlyMissing_record nofun h
  unfold settle
  split
  · exact h
  · dsimp only
    split
    · exact hrecord
    · exact onlyMissing_seek k g hrecord

theorem onlyMissing_step (g : Glyph) {r : Reader} (h : OnlyMissing r.events) :
    OnlyMissing (r.step d tracing g).events := by
  unfold step stepAs
  split
  · exact h
  · exact onlyMissing_seek _ g h
  · exact onlyMissing_settle _ _ g h
  · split
    · exact h
    · exact onlyMissing_settle _ _ g h

theorem onlyMissing_run (gs : List Glyph) : OnlyMissing (run d tracing mark gs).events := by
  induction gs using List.reverseRecOn with
  | nil => exact nofun
  | append_singleton gs g ih =>
      rw [run_concat]
      exact onlyMissing_step g ih

theorem onlyMissing_giveUp {failure reason : Failure} (hf : failure.cause = .endOfInput)
    (hr : reason.cause = .endOfInput) (m : Mark) (fs : List Frame) :
    OnlyMissing (giveUp failure m reason fs) := by
  induction fs generalizing reason with
  | nil => exact nofun
  | cons f fs ih =>
      refine onlyMissing_cons ?_ (onlyMissing_cons ?_ (ih hf))
      · intro f hmem
        cases hmem
        exact hr
      · intro f hmem
        cases hmem
        exact hf

theorem onlyMissing_finishSeeking {r : Reader} (h : OnlyMissing r.events) :
    OnlyMissing (r.finishSeeking d tracing).events := by
  have hgiveUp : OnlyMissing (giveUp (endFailure d.closingName r.mark) r.mark
      (endFailure "atom or list" r.mark) r.frames) :=
    onlyMissing_giveUp rfl rfl r.mark r.frames
  intro e he
  rcases List.mem_append.1 he with he | he
  · exact h e (List.mem_reverse.1 he)
  · cases tracing with
    | false => cases he
    | true => exact hgiveUp e he

theorem onlyMissing_finishComplete (node : Node) {r : Reader} (h : OnlyMissing r.events) :
    OnlyMissing (r.finishComplete d tracing node).events := by
  have hrecord : OnlyMissing (r.record tracing (.expression (.ok node) r.mark)).events :=
    onlyMissing_record nofun h
  unfold finishComplete
  dsimp only
  split
  · exact fun e he => hrecord e (List.mem_reverse.1 he)
  · exact onlyMissing_finishSeeking hrecord

/-- No attempt to read an expression, at whatever depth, fails because of a character. -/
theorem onlyMissing_readGlyphs (gs : List Glyph) :
    OnlyMissing (readGlyphs d tracing mark gs).events := by
  have h : OnlyMissing (run d tracing mark gs).events := onlyMissing_run gs
  change OnlyMissing ((run d tracing mark gs).finish d tracing).events
  unfold finish
  split
  · exact fun e he => h e (List.mem_reverse.1 he)
  · exact onlyMissing_finishSeeking h
  · exact onlyMissing_finishComplete _ h
  · exact onlyMissing_finishComplete _ h

/-! ## The outcome -/

theorem whole_of_oversteps {c : CodePoint} (h : d.Oversteps (gs.dropWhile d.isBlank) c) :
    (readGlyphs d tracing mark gs).whole.FailsWith (.unexpected [c]) "end of input" := by
  rcases h with ⟨g, hg, hk, rfl⟩ | ⟨e, rest, hsplit, he, g, hg, rfl⟩
  · exact whole_of_stray hg hk
  · exact (whole_of_firstExpression hsplit he).2 g hg

theorem whole_cases (d : Dialect) (tracing : Bool) (mark : Mark) (gs : List Glyph) :
    (∀ g ∈ gs, d.isBlank g = true) ∨
      (∃ c, d.Oversteps (gs.dropWhile d.isBlank) c) ∨
      ((∃ g ∈ (gs.dropWhile d.isBlank).head?, d.classify g.char = .opening) ∧
        d.Unclosed (gs.dropWhile d.isBlank)) ∨
      ∃ n, (readGlyphs d tracing mark gs).whole = .ok n := by
  rcases d.layout_cases gs with h | ⟨g, hg, hk⟩ | h | ⟨e, rest, hsplit, he⟩
  · exact Or.inl h
  · exact Or.inr (Or.inl ⟨g.char, Or.inl ⟨g, hg, hk, rfl⟩⟩)
  · exact Or.inr (Or.inr (Or.inl h))
  · cases hrest : (rest.dropWhile d.isBlank).head? with
    | none =>
        have hok : rest.dropWhile d.isBlank = [] →
            ∃ n, (readGlyphs d tracing mark gs).whole = .ok n :=
          (whole_of_firstExpression hsplit he).1
        exact Or.inr (Or.inr (Or.inr (hok (List.head?_eq_none_iff.1 hrest))))
    | some g => exact Or.inr (Or.inl ⟨g.char, Or.inr ⟨e, rest, hsplit, he, g, hrest, rfl⟩⟩)

end Reader

/-- A quoted text begins with a quotation mark, so it is no text that begins otherwise. -/
theorem Text.quoted_ne {t u : Text} (hu : ∀ c ∈ u.head?, c ≠ .apostrophe ∧ c ≠ .doubleQuote) :
    t.quoted ≠ u := by
  intro h
  have hmark : t.quoteMark ∈ u.head? := by
    rw [← h]
    rfl
  obtain ⟨hapostrophe, hdouble⟩ := hu _ hmark
  unfold quoteMark at hapostrophe hdouble
  by_cases ht : .apostrophe ∈ t ∧ .doubleQuote ∉ t
  · exact hdouble (if_pos ht)
  · exact hapostrophe (if_neg ht)

theorem Dialect.closingName_ne (d : Dialect) :
    d.closingName ≠ "atom" ∧ d.closingName ≠ "atom or list" ∧ d.closingName ≠ "end of input" := by
  refine ⟨Text.quoted_ne ?_, Text.quoted_ne ?_, Text.quoted_ne ?_⟩ <;> decide

/-- Which outcome parsing has, by the layout of the source. The last three parts say that no other
failure is reported: in particular, a failure to read an atom inside a list never comes to the
surface, and where a list should end, no character is ever found to be a wrong one. -/
theorem parse_outcome_classified (d : Dialect) (b : Bytes) :
    let body := (Utf8.glyphs b).dropWhile d.isBlank
    ((parseBytes d b).FailsWith .endOfInput "atom or list" ↔
      ∀ g ∈ Utf8.glyphs b, d.isBlank g = true) ∧
    ((parseBytes d b).FailsWith .endOfInput d.closingName ↔
      (∃ g ∈ body.head?, d.classify g.char = .opening) ∧ d.Unclosed body) ∧
    (∀ c, (parseBytes d b).FailsWith (.unexpected [c]) "end of input" ↔ d.Oversteps body c) ∧
    ((∃ n, parseBytes d b = .ok n) ↔
      ¬ (∀ g ∈ Utf8.glyphs b, d.isBlank g = true) ∧
      ¬ ((∃ g ∈ body.head?, d.classify g.char = .opening) ∧ d.Unclosed body) ∧
      ∀ c, ¬ d.Oversteps body c) ∧
    (∀ f, parseBytes d b = .error f →
      (f.cause = .endOfInput ∧ (f.expected = "atom or list" ∨ f.expected = d.closingName) ∨
        (∃ c, f.cause = .unexpected [c]) ∧ f.expected = "end of input") ∧
      f.expected ≠ "atom") ∧
    (∃ p, (Cursor.ofBytes b).descend d = pure p ∧ p.outcome = parseBytes d b ∧
      ∀ e ∈ p.events, ∀ f ∈ e.failure?, f.cause = .endOfInput) ∧
    ∀ (start : Nat) (c : Cursor), c.mark.position ≤ c.size →
      ∃ outcome c' events, c.list d start = pure (outcome, c', events) ∧
        ∀ f, outcome = .error f → f.cause = .endOfInput ∧ f.expected = d.closingName := by
  intro body
  let gs := Utf8.glyphs b
  have hblank (h : ∀ g ∈ gs, d.isBlank g = true) :
      (parseBytes d b).FailsWith .endOfInput "atom or list" :=
    Reader.whole_of_blank h
  have hunclosed (h : (∃ g ∈ body.head?, d.classify g.char = .opening) ∧ d.Unclosed body) :
      (parseBytes d b).FailsWith .endOfInput d.closingName := by
    obtain ⟨⟨g, hg, -⟩, hbody⟩ := h
    refine Reader.whole_of_unclosed ?_ hbody
    intro hnil
    rw [show body = [] from hnil] at hg
    cases hg
  have hoversteps (c : CodePoint) (h : d.Oversteps body c) :
      (parseBytes d b).FailsWith (.unexpected [c]) "end of input" :=
    Reader.whole_of_oversteps h
  have hcases := Reader.whole_cases d false .origin gs
  obtain ⟨hatom, hexpression, -⟩ := d.closingName_ne
  refine ⟨⟨?_, hblank⟩, ⟨?_, hunclosed⟩, fun c => ⟨?_, hoversteps c⟩, ⟨?_, ?_⟩, ?_,
    ?_, ?_⟩
  · intro h
    rcases hcases with hc | ⟨c, hc⟩ | hc | ⟨n, hn⟩
    · exact hc
    · cases (h.unique (hoversteps c hc)).1
    · exact (hexpression (h.unique (hunclosed hc)).2.symm).elim
    · exact (h.ne_ok n hn).elim
  · intro h
    rcases hcases with hc | ⟨c, hc⟩ | hc | ⟨n, hn⟩
    · exact (hexpression (h.unique (hblank hc)).2).elim
    · cases (h.unique (hoversteps c hc)).1
    · exact hc
    · exact (h.ne_ok n hn).elim
  · intro h
    rcases hcases with hc | ⟨c', hc⟩ | hc | ⟨n, hn⟩
    · cases (h.unique (hblank hc)).1
    · cases (h.unique (hoversteps c' hc)).1
      exact hc
    · cases (h.unique (hunclosed hc)).1
    · exact (h.ne_ok n hn).elim
  · rintro ⟨n, hn⟩
    exact ⟨fun h => (hblank h).ne_ok n hn, fun h => (hunclosed h).ne_ok n hn,
      fun c h => (hoversteps c h).ne_ok n hn⟩
  · rintro ⟨hnotBlank, hnotUnclosed, hnotOversteps⟩
    rcases hcases with hc | ⟨c, hc⟩ | hc | hn
    · exact (hnotBlank hc).elim
    · exact (hnotOversteps c hc).elim
    · exact (hnotUnclosed hc).elim
    · exact hn
  · intro f hf
    rcases hcases with hc | ⟨c, hc⟩ | hc | ⟨n, hn⟩
    · obtain ⟨hcause, hexpected⟩ := (hblank hc).eq_of_error hf
      rw [hcause, hexpected]
      exact ⟨Or.inl ⟨rfl, Or.inl rfl⟩, (by decide : ("atom or list" : Text) ≠ "atom")⟩
    · obtain ⟨hcause, hexpected⟩ := (hoversteps c hc).eq_of_error hf
      rw [hcause, hexpected]
      exact ⟨Or.inr ⟨⟨c, rfl⟩, rfl⟩, (by decide : ("end of input" : Text) ≠ "atom")⟩
    · obtain ⟨hcause, hexpected⟩ := (hunclosed hc).eq_of_error hf
      rw [hcause, hexpected]
      exact ⟨Or.inl ⟨rfl, Or.inr rfl⟩, hatom⟩
    · change parseBytes d b = .ok n at hn
      rw [hf] at hn
      cases hn
  · refine ⟨_, Cursor.descend_eq d (Nat.zero_le _), ?_, Reader.onlyMissing_readGlyphs gs⟩
    rw [parseBytes, Cursor.parse_quiet]
  · intro start c hc
    obtain ⟨outcome, c', events, hcall, hfails⟩ := Cursor.list_fails_for_want d start hc
    refine ⟨outcome, c', events, hcall, ?_⟩
    intro f hf
    rw [hfails f hf]
    exact ⟨rfl, rfl⟩

end SexpReader
