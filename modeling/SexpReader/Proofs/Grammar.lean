import SexpReader.Proofs.Lexeme
import SexpReader.Proofs.Run

/-!
# The grammar that the reader accepts

Parsing succeeds exactly on the sources whose lexemes spell one expression, and gives that
expression. The reader does not look at lexemes, so the proof keeps an account of them:
`Reader.account` puts together what the reader has read, as far as it still holds it, and what is
to come. No move of a live reader changes the account. At the end of a source nothing is to come,
and what the reader holds decides; where it stops early, the account is not that of an expression.
-/

namespace SexpReader

/-- The lexemes of the lists that are still open, the innermost first. -/
def Frame.lexemesAll : List Frame → List Lexeme
  | [] => []
  | f :: fs => lexemesAll fs ++ .opening :: Node.lexemesAll f.items.reverse

namespace Reader

variable {d : Dialect} {tracing : Bool}

/-- The lexemes read so far and those to come. -/
def account (d : Dialect) (r : Reader) (gs : List Glyph) : List Lexeme :=
  Frame.lexemesAll r.frames ++
    match r.phase with
    | .seeking => d.lexemes gs
    | .inAtom _ run => d.lexemes (run.reverse ++ gs)
    | .complete node => node.lexemes ++ d.lexemes gs
    | .stopped .. => []

/-- While a reader is inside an atom, it has at least one glyph of it, and only constituents. -/
def AtomProper (d : Dialect) (r : Reader) : Prop :=
  ∀ start run, r.phase = .inAtom start run →
    run ≠ [] ∧ ∀ g ∈ run, d.isConstituent g = true

theorem account_of_held {r : Reader} {node : Node} (hr : r.AtomProper d)
    (hn : r.held? = some node) {g : Glyph} (hg : Separate d r g) (gs : List Glyph) :
    r.account d (g :: gs) =
      Frame.lexemesAll r.frames ++ (node.lexemes ++ d.lexemes (g :: gs)) := by
  unfold held? at hn
  unfold account
  cases hp : r.phase with
  | seeking => rw [hp] at hn; cases hn
  | stopped outcome next => rw [hp] at hn; cases hn
  | complete n =>
      rw [hp] at hn
      cases hn
      rfl
  | inAtom start run =>
      rw [hp] at hn
      cases hn
      obtain ⟨hne, hrun⟩ := hr start run hp
      have hg' : d.classify g.char ≠ .constituent := fun hk => hg hk start run hp
      have hrev : ∀ x ∈ run.reverse, d.isConstituent x = true := by
        intro x hx
        exact hrun x (List.mem_reverse.1 hx)
      have hne' : run.reverse ≠ [] := fun h => hne (List.reverse_eq_nil_iff.1 h)
      dsimp only
      rw [Dialect.lexemes_run_append hne' hrev hg']
      rfl

theorem account_of_room {r : Reader} {fs : List Frame} (hr : r.AtomProper d)
    (hlive : r.phase.IsLive) (hroom : r.room? = some fs) {g : Glyph} (hg : Separate d r g)
    (gs : List Glyph) :
    r.account d (g :: gs) = Frame.lexemesAll fs ++ d.lexemes (g :: gs) := by
  unfold room? at hroom
  cases hn : r.held? with
  | none =>
      rw [hn] at hroom
      cases hroom
      unfold held? at hn
      unfold account
      cases hp : r.phase with
      | seeking => rfl
      | stopped outcome next => rw [hp] at hlive; exact hlive.elim
      | complete n => rw [hp] at hn; cases hn
      | inAtom start run => rw [hp] at hn; cases hn
  | some node =>
      rw [account_of_held hr hn hg]
      cases hf : r.frames with
      | nil => rw [hn, hf] at hroom; cases hroom
      | cons f fs' =>
          rw [hn, hf] at hroom
          cases hroom
          simp [Frame.lexemesAll, Node.lexemesAll_append, Node.lexemesAll_singleton]

theorem atomProper_move {r : Reader} {g : Glyph} {m : Mark} {fs : List Frame} {ph : Phase}
    {events : List Event} (hr : r.AtomProper d) (hmove : Move d r g m fs ph) :
    AtomProper d ⟨m, fs, ph, events⟩ := by
  intro start run hp
  cases hmove with
  | beginAtom hroom hatom hk =>
      cases hp
      refine ⟨List.cons_ne_nil _ _, ?_⟩
      intro x hx
      rw [List.mem_singleton.1 hx]
      exact Dialect.isConstituent_iff.2 hk
  | @extend start' run' hatom hk =>
      cases hp
      refine ⟨List.cons_ne_nil _ _, ?_⟩
      intro x hx
      rcases List.mem_cons.1 hx with rfl | hx
      · exact Dialect.isConstituent_iff.2 hk
      · exact (hr _ _ hatom).2 x hx
  | skip => cases hp
  | rest => cases hp
  | openList => cases hp
  | closeList => cases hp
  | stray => cases hp
  | surplus => cases hp

/-- A live reader that moves on keeps the account. -/
theorem account_move {r : Reader} {g : Glyph} {m : Mark} {fs : List Frame} {ph : Phase}
    {events : List Event} (hr : r.AtomProper d) (hlive : r.phase.IsLive)
    (hmove : Move d r g m fs ph) (hph : ph.IsLive) (gs : List Glyph) :
    account d ⟨m, fs, ph, events⟩ gs = r.account d (g :: gs) := by
  cases hmove with
  | skip hp hk =>
      unfold account
      rw [hp, Dialect.lexemes_cons_of_isBlank hk]
  | rest hn hk =>
      have hne : d.classify g.char ≠ .constituent := by
        intro h
        rw [h] at hk
        cases hk
      rw [account_of_held hr hn (separate_of_ne hne), Dialect.lexemes_cons_of_isBlank hk]
      rfl
  | extend hp hk =>
      unfold account
      rw [hp]
      simp
  | beginAtom hroom hg hk =>
      rw [account_of_room hr hlive hroom hg]
      rfl
  | openList hroom hk =>
      rw [account_of_room hr hlive hroom (separate_of_ne (by rw [hk]; nofun)),
        Dialect.lexemes_cons_of_opening hk]
      simp [account, Frame.lexemesAll, Node.lexemesAll]
  | closeList hroom hk =>
      rw [account_of_room hr hlive hroom (separate_of_ne (by rw [hk]; nofun)),
        Dialect.lexemes_cons_of_closing hk]
      simp [account, Frame.lexemesAll, Node.lexemes]
  | stray => exact hph.elim
  | surplus => exact hph.elim

/-- After a run the account is that of the whole source. -/
theorem account_run {mark : Mark} {gs : List Glyph} (h : (run d tracing mark gs).phase.IsLive)
    (hs : List Glyph) :
    (run d tracing mark gs).AtomProper d ∧
      (run d tracing mark gs).account d hs = d.lexemes (gs ++ hs) := by
  refine run_induction
    (motive := fun gs r => r.AtomProper d ∧ ∀ hs, r.account d hs = d.lexemes (gs ++ hs))
    ⟨nofun, fun hs => rfl⟩ ?_ h |>.imp_right fun h => h hs
  intro gs r g hr ih hstep
  obtain ⟨m, fs, ph, events, hr', hmove⟩ := exists_move d tracing hr g
  rw [hr'] at hstep ⊢
  refine ⟨atomProper_move ih.1 hmove, ?_⟩
  intro hs
  rw [account_move ih.1 hr hmove hstep, ih.2, List.append_cons]

/-- An open list has an opening bracket without its closing one. -/
theorem count_lexemesAll_frames (fs : List Frame) :
    (Frame.lexemesAll fs).count .opening =
      (Frame.lexemesAll fs).count .closing + fs.length := by
  induction fs with
  | nil => rfl
  | cons f fs ih =>
      have hitems := Node.count_opening_lexemesAll f.items.reverse
      simp only [Frame.lexemesAll, List.count_append, List.length_cons, ih, hitems,
        List.count_cons_self, List.count_cons_of_ne (show Lexeme.opening ≠ .closing by decide)]
      omega

/-- At the end of a source the account is what the reader holds. -/
theorem account_nil {r : Reader} (hr : r.AtomProper d) (hlive : r.phase.IsLive) :
    r.account d [] = Frame.lexemesAll r.frames ++ (r.held?.map Node.lexemes).getD [] := by
  unfold account held?
  cases hp : r.phase with
  | seeking => rfl
  | stopped outcome next =>
      rw [hp] at hlive
      exact hlive.elim
  | complete node => simp
  | inAtom start run =>
      obtain ⟨hne, hrun⟩ := hr start run hp
      have hne' : run.reverse ≠ [] := fun h => hne (List.reverse_eq_nil_iff.1 h)
      have hrev : ∀ x ∈ run.reverse, d.isConstituent x = true := by
        intro x hx
        exact hrun x (List.mem_reverse.1 hx)
      dsimp only
      rw [List.append_nil, Dialect.lexemes_run hne' hrev]
      rfl

/-- Where the source ends, the outcome is an expression exactly if the account is its lexemes. -/
theorem verdict_iff_account {r : Reader} (hr : r.AtomProper d) (hlive : r.phase.IsLive)
    (t : Node) :
    (∃ n, r.verdict d = .ok n ∧ n.same t = true) ↔ r.account d [] = t.lexemes := by
  rw [account_nil hr hlive]
  unfold verdict
  cases hf : r.frames with
  | nil =>
      cases hn : r.held? with
      | none =>
          constructor
          · rintro ⟨n, hok, -⟩
            cases hok
          · intro h
            exact (Node.lexemes_ne_nil t h.symm).elim
      | some node =>
          have hnode : (∃ n, (.ok node : Outcome) = .ok n ∧ n.same t = true) ↔
              node.same t = true := by
            constructor
            · rintro ⟨n, hok, hsame⟩
              cases hok
              exact hsame
            · intro hsame
              exact ⟨node, rfl, hsame⟩
          exact hnode.trans (Node.same_iff_lexemes_eq node t)
  | cons f fs =>
      constructor
      · rintro ⟨n, hok, -⟩
        cases hok
      · -- The account has more opening than closing brackets, the expression has not.
        intro h
        have hframes := count_lexemesAll_frames (f :: fs)
        have ht := Node.count_opening_lexemes t
        rw [← h] at ht
        cases hn : r.held? with
        | none =>
            simp only [hn, List.count_append, Option.map_none, Option.getD_none,
              List.count_nil] at ht
            rw [List.length_cons] at hframes
            omega
        | some node =>
            have hnode := Node.count_opening_lexemes node
            simp only [hn, List.count_append, Option.map_some, Option.getD_some] at ht
            rw [List.length_cons] at hframes
            omega

/-- Where the reader stops, the account is not that of an expression. -/
theorem account_ne_of_stop {r : Reader} (hr : r.AtomProper d) {g : Glyph}
    {m : Mark} {fs : List Frame} {ph : Phase} (hmove : Move d r g m fs ph) (hph : ¬ ph.IsLive)
    (gs : List Glyph) (t : Node) : r.account d (g :: gs) ≠ t.lexemes := by
  intro h
  cases hmove with
  | stray hp hf hk =>
      unfold account at h
      rw [hf, hp] at h
      dsimp only at h
      rw [Dialect.lexemes_cons_of_closing hk] at h
      refine Node.lexemes_ne_closing_cons t [] (d.lexemes gs) ?_
      rw [List.append_nil, ← h]
      rfl
  | @surplus node hn hf hk hg =>
      rw [account_of_held hr hn hg, hf] at h
      have happend : node.lexemes ++ d.lexemes (g :: gs) = t.lexemes ++ [] := by
        rw [List.append_nil, ← h]
        rfl
      obtain ⟨-, hrest⟩ := Node.same_of_lexemes_append node t _ _ happend
      exact Dialect.lexemes_cons_ne_nil hk gs hrest
  | skip => exact hph trivial
  | rest => exact hph trivial
  | extend => exact hph trivial
  | beginAtom => exact hph trivial
  | openList => exact hph trivial
  | closeList => exact hph trivial

end Reader

/-- Parsing gives an expression exactly if the source is spelled like it. -/
theorem parseBytes_ok_iff (d : Dialect) (b : Bytes) (t : Node) :
    (∃ n, parseBytes d b = .ok n ∧ n.same t = true) ↔
      d.lexemes (Utf8.glyphs b) = t.lexemes := by
  change (∃ n, (Reader.readGlyphs d false .origin (Utf8.glyphs b)).whole = .ok n ∧ _) ↔ _
  rcases Reader.readGlyphs_cases d false .origin (Utf8.glyphs b) with
    hlive | ⟨before, g, after, hgs, hlive, hstop⟩
  · obtain ⟨hproper, haccount⟩ := Reader.account_run hlive []
    rw [List.append_nil] at haccount
    rw [(Reader.readGlyphs_of_isLive hlive).2, Reader.verdict_iff_account hproper hlive, haccount]
  · rw [hgs, (Reader.readGlyphs_of_stop hlive hstop after).2]
    obtain ⟨hproper, haccount⟩ := Reader.account_run hlive (g :: after)
    have hmove := Reader.move_step d false hlive g
    constructor
    · rintro ⟨n, hok, -⟩
      cases hok
    · intro h
      rw [← haccount] at h
      exact (Reader.account_ne_of_stop hproper hmove hstop after t h).elim

/-- The reader accepts the sources that spell one expression, blanks apart, and nothing else; and
what it gives is that expression, which the source determines up to bounds. -/
theorem parseBytes_accepts_grammar (d : Dialect) (b : Bytes) :
    (∀ t : Node, (∃ n, parseBytes d b = .ok n ∧ (n == t) = true) ↔
      d.lexemes (Utf8.glyphs b) = t.lexemes) ∧
    ((∃ n, parseBytes d b = .ok n) ↔ ∃ t : Node, d.lexemes (Utf8.glyphs b) = t.lexemes) := by
  refine ⟨parseBytes_ok_iff d b, ?_⟩
  constructor
  · rintro ⟨n, hn⟩
    exact ⟨n, (parseBytes_ok_iff d b n).1 ⟨n, hn, (Node.same_iff_lexemes_eq n n).2 rfl⟩⟩
  · rintro ⟨t, ht⟩
    obtain ⟨n, hn, -⟩ := (parseBytes_ok_iff d b t).2 ht
    exact ⟨n, hn⟩

end SexpReader
