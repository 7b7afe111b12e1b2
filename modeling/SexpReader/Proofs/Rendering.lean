import SexpReader.Proofs.AtomText
import SexpReader.Tree.Fold

/-!
# Rendering and reading again

`Node.render` writes an expression as source text. In a dialect that takes the brackets and the
space for what they are, the text is read as the same expression, if its atoms could have been
read at all: they are not empty and hold neither blanks nor brackets. Then the glyphs of the text
have the lexemes of the expression. Every expression that was parsed is of this kind.
-/

namespace SexpReader

theorem Text.forall_mem_join {p : CodePoint → Prop} {s : Text} {ts : List Text}
    (hs : ∀ c ∈ s, p c) (hts : ∀ t ∈ ts, ∀ c ∈ t, p c) : ∀ c ∈ join s ts, p c := by
  induction ts with
  | nil => exact nofun
  | cons t ts ih =>
      rw [List.forall_mem_cons] at hts
      cases ts with
      | nil => exact hts.1
      | cons u us =>
          rw [join_cons_cons, List.forall_mem_append, List.forall_mem_append]
          exact ⟨⟨hts.1, hs⟩, ih hts.2⟩

/-- The characters that rendering puts between atoms are what they are meant to be. -/
structure Dialect.IsRound (d : Dialect) : Prop where
  opening : d.classify (.ofChar '(') = .opening
  closing : d.classify (.ofChar ')') = .closing
  space : (d.classify (.ofChar ' ')).isBlank = true

theorem Dialect.isRound_standard : standard.IsRound := ⟨rfl, rfl, rfl⟩

theorem Dialect.isRound_strict : strict.IsRound := ⟨rfl, rfl, rfl⟩

namespace Node

theorem render_list (xs : List Node) (b : Bounds) :
    render (.list xs b) =
      .ofChar '(' :: (Text.join [.ofChar ' '] (xs.map render) ++ [.ofChar ')']) := by
  rw [render, fold_list]
  rfl

mutual

/-- The atoms of an expression are those among its lexemes. -/
theorem atom_mem_lexemes_iff {v : Text} : ∀ t : Node,
    .atom v ∈ t.lexemes ↔ ∃ bounds, .atom v bounds ∈ t.preorder
  | .atom w b => by simp [lexemes, Tree.preorder]
  | .list xs b => by simp [lexemes, Tree.preorder, atom_mem_lexemesAll_iff xs]

theorem atom_mem_lexemesAll_iff {v : Text} : ∀ xs : List Node,
    .atom v ∈ lexemesAll xs ↔ ∃ bounds, .atom v bounds ∈ Tree.preorderAll xs
  | [] => by simp [lexemesAll, Tree.preorderAll]
  | x :: xs => by
      simp only [lexemesAll, Tree.preorderAll, List.mem_append, exists_or,
        atom_mem_lexemes_iff x, atom_mem_lexemesAll_iff xs]

end

mutual

/-- What is true of the characters of all atoms and of those between them is true of the rendered
text. -/
theorem forall_mem_render {p : CodePoint → Prop}
    (hp : p (.ofChar '(') ∧ p (.ofChar ')') ∧ p (.ofChar ' ')) : ∀ t : Node,
    (∀ v, .atom v ∈ t.lexemes → ∀ c ∈ v, p c) → ∀ c ∈ t.render, p c
  | .atom v b, h => h v (List.mem_singleton.2 rfl)
  | .list xs b, h => by
      have hxs := forall_mem_renderAll hp xs fun v hv =>
        h v (List.mem_cons_of_mem _ (List.mem_append_left _ hv))
      rw [render_list, List.forall_mem_cons, List.forall_mem_append, List.forall_mem_singleton]
      exact ⟨hp.1, Text.forall_mem_join (List.forall_mem_singleton.2 hp.2.2) hxs, hp.2.1⟩

theorem forall_mem_renderAll {p : CodePoint → Prop}
    (hp : p (.ofChar '(') ∧ p (.ofChar ')') ∧ p (.ofChar ' ')) : ∀ xs : List Node,
    (∀ v, .atom v ∈ lexemesAll xs → ∀ c ∈ v, p c) → ∀ u ∈ xs.map render, ∀ c ∈ u, p c
  | [], _ => nofun
  | x :: xs, h => by
      rw [List.map_cons, List.forall_mem_cons]
      exact ⟨forall_mem_render hp x fun v hv => h v (List.mem_append_left _ hv),
        forall_mem_renderAll hp xs fun v hv => h v (List.mem_append_right _ hv)⟩

end

variable {d : Dialect}

/-- The text of an atom is read as this atom. -/
theorem lexemes_written {v : Text} (hv : d.IsAtomText v) (hs : ∀ c ∈ v, c.isSurrogate = false) :
    d.lexemes (Utf8.written v) = [.atom v] := by
  have hne : Utf8.written v ≠ [] := by
    rw [Utf8.written, ne_eq, List.map_eq_nil_iff]
    exact hv.ne_nil
  have hrun : ∀ g ∈ Utf8.written v, d.isConstituent g = true := by
    intro g hg
    obtain ⟨c, hc, rfl⟩ := List.mem_map.1 hg
    exact Dialect.isConstituent_iff.2 (hv.constituent c hc)
  rw [Dialect.lexemes_run hne hrun, Utf8.flatMap_bytes_written,
    Utf8.decodeLossy_flatMap_encode hs]

theorem lexemes_written_append {t : Text} {c : CodePoint} (hc : d.classify c ≠ .constituent)
    (u : Text) : d.lexemes (Utf8.written (t ++ c :: u)) =
      d.lexemes (Utf8.written t) ++ d.lexemes (Utf8.written (c :: u)) := by
  have hfalse : d.isConstituent ⟨c, Utf8.encode c⟩ = false :=
    Dialect.isConstituent_eq_false_iff.2 hc
  rw [Utf8.written_append]
  apply Dialect.lexemes_append
  rintro g - g' hg'
  cases hg'
  rw [hfalse, Bool.and_false]

mutual

/-- The rendered text of an expression has the lexemes of the expression. -/
theorem lexemes_written_render (hd : d.IsRound) : ∀ t : Node,
    (∀ v, .atom v ∈ t.lexemes → d.IsAtomText v ∧ ∀ c ∈ v, c.isSurrogate = false) →
      d.lexemes (Utf8.written t.render) = t.lexemes
  | .atom v b, h => by
      obtain ⟨hv, hs⟩ := h v (List.mem_singleton.2 rfl)
      exact lexemes_written hv hs
  | .list xs b, h => by
      have hxs := lexemes_written_join hd xs fun v hv =>
        h v (List.mem_cons_of_mem _ (List.mem_append_left _ hv))
      have hclosing : d.classify (.ofChar ')') ≠ .constituent := by
        rw [hd.closing]
        nofun
      rw [render_list, Utf8.written_cons, Dialect.lexemes_cons_of_opening hd.opening,
        lexemes_written_append hclosing, hxs, Utf8.written_cons,
        Dialect.lexemes_cons_of_closing hd.closing]
      rfl

theorem lexemes_written_join (hd : d.IsRound) : ∀ xs : List Node,
    (∀ v, .atom v ∈ lexemesAll xs → d.IsAtomText v ∧ ∀ c ∈ v, c.isSurrogate = false) →
      d.lexemes (Utf8.written (Text.join [.ofChar ' '] (xs.map render))) = lexemesAll xs
  | [], _ => rfl
  | [x], h => by
      rw [lexemesAll_singleton] at h ⊢
      exact lexemes_written_render hd x h
  | x :: y :: xs, h => by
      have hspace : d.classify (.ofChar ' ') ≠ .constituent := by
        intro hk
        have hblank := hd.space
        rw [hk] at hblank
        cases hblank
      have hx := lexemes_written_render hd x fun v hv => h v (List.mem_append_left _ hv)
      have hxs := lexemes_written_join hd (y :: xs) fun v hv => h v (List.mem_append_right _ hv)
      rw [List.map_cons, List.map_cons, Text.join_cons_cons, List.append_assoc,
        List.singleton_append, lexemes_written_append hspace, hx, Utf8.written_cons,
        Dialect.lexemes_cons_of_isBlank hd.space, ← List.map_cons, hxs]
      rfl

end

/-- The rendered text of an expression is read as this expression. -/
theorem parseText_render (hd : d.IsRound) {t : Node}
    (h : ∀ v, .atom v ∈ t.lexemes → d.IsAtomText v ∧ ∀ c ∈ v, c.isSurrogate = false) :
    ∃ n, parseText d t.render = .ok (.ok n) ∧ (n == t) = true := by
  have hs := forall_mem_render (p := fun c => c.isSurrogate = false) ⟨rfl, rfl, rfl⟩ t
    fun v hv => (h v hv).2
  have hlexemes : d.lexemes (Utf8.glyphs (t.render.flatMap Utf8.encode)) = t.lexemes := by
    rw [Utf8.glyphs_flatMap_encode hs, lexemes_written_render hd t h]
  obtain ⟨n, hn, hsame⟩ := (parseBytes_ok_iff d _ t).2 hlexemes
  refine ⟨n, ?_, hsame⟩
  rw [parseText, Utf8.encodeText_eq_ok_iff.2 ⟨hs, rfl⟩, ← hn]
  rfl

/-- If a text is read as an expression, the atoms of the expression could be read. -/
theorem isAtomText_of_parseText {t n : Node} {u : Text} (h : parseText d u = .ok (.ok n))
    (hsame : (n == t) = true) {v : Text} (hv : .atom v ∈ t.lexemes) : d.IsAtomText v := by
  rw [← lexemes_eq_of_same n t hsame, atom_mem_lexemes_iff] at hv
  obtain ⟨bounds, hv⟩ := hv
  unfold parseText at h
  cases hencode : Utf8.encodeText u with
  | error run =>
      rw [hencode] at h
      cases h
  | ok b =>
      rw [hencode] at h
      exact isAtomText_of_mem_preorder (Except.ok.inj h) hv

end Node

theorem Dialect.IsRound.isAtomText_iff {d : Dialect} (hd : d.IsRound) {v : Text} :
    d.IsAtomText v ↔ v ≠ [] ∧ ∀ c ∈ v,
      (c ≠ d.newline ∧ c ≠ d.tab ∧ c ≠ d.space ∧ c ∉ d.extra) ∧
        c ≠ .ofChar '(' ∧ c ≠ .ofChar ')' := by
  have hopening := eq_opening_of_classify hd.opening
  have hclosing := eq_closing_of_classify hd.closing
  constructor
  · rintro ⟨hne, hv⟩
    refine ⟨hne, fun c hc => ?_⟩
    obtain ⟨hnewline, htab, hspace, hextra, hrest⟩ := classify_eq_constituent_iff.1 (hv c hc)
    rw [hopening, hclosing]
    exact ⟨⟨hnewline, htab, hspace, hextra⟩, hrest⟩
  · rintro ⟨hne, hv⟩
    refine ⟨hne, fun c hc => ?_⟩
    obtain ⟨⟨hnewline, htab, hspace, hextra⟩, hrest⟩ := hv c hc
    rw [hopening, hclosing] at hrest
    exact classify_eq_constituent_iff.2 ⟨hnewline, htab, hspace, hextra, hrest⟩

/-- Rendering and reading are inverse. A rendered expression without surrogates is read as this
expression exactly if its atoms are not empty and hold neither blanks nor brackets; and whatever
was parsed is read again from its rendered text. -/
theorem render_read_inverse {d : Dialect} (hd : d = .standard ∨ d = .strict) :
    (∀ t : Node, (∀ v bounds, .atom v bounds ∈ t.preorder → ∀ c ∈ v, c.isSurrogate = false) →
      ((∃ n, parseText d t.render = .ok (.ok n) ∧ (n == t) = true) ↔
        ∀ v bounds, .atom v bounds ∈ t.preorder → v ≠ [] ∧ ∀ c ∈ v,
          (c ≠ d.newline ∧ c ≠ d.tab ∧ c ≠ d.space ∧ c ∉ d.extra) ∧
            c ≠ .ofChar '(' ∧ c ≠ .ofChar ')')) ∧
    ∀ b t, parseBytes d b = .ok t →
      ∃ n, parseText d t.render = .ok (.ok n) ∧ (n == t) = true := by
  have hround : d.IsRound := by
    rcases hd with rfl | rfl
    · exact Dialect.isRound_standard
    · exact Dialect.isRound_strict
  constructor
  · intro t hs
    constructor
    · rintro ⟨n, hn, hsame⟩ v bounds hv
      exact hround.isAtomText_iff.1
        (Node.isAtomText_of_parseText hn hsame ((Node.atom_mem_lexemes_iff t).2 ⟨bounds, hv⟩))
    · intro h
      apply Node.parseText_render hround
      intro v hv
      obtain ⟨bounds, hv⟩ := (Node.atom_mem_lexemes_iff t).1 hv
      exact ⟨hround.isAtomText_iff.2 (h v bounds hv), hs v bounds hv⟩
  · intro b t ht
    apply Node.parseText_render hround
    intro v hv
    obtain ⟨bounds, hv⟩ := (Node.atom_mem_lexemes_iff t).1 hv
    exact ⟨isAtomText_of_mem_preorder ht hv, isSurrogate_of_mem_atom ht hv⟩

/-- An expression read from broken bytes is read again, and one that was made by hand with a blank
in an atom is not. -/
theorem render_read_of_broken_character :
    let b : Bytes := [0x28, 0xC3, 0x20, 0x28, 0x29, 0x29]
    let t : Node := .list [.atom "\ufffd" (.between 1 2), .list [] (.between 3 5)] (.between 0 6)
    parseBytes .strict b = .ok t ∧
      (∃ n, parseText .strict t.render = .ok (.ok n) ∧ (n == t) = true) ∧
      ¬ ∃ n, parseText .strict (Node.render (.atom "a b" .unknown)) = .ok (.ok n) ∧
        (n == .atom "a b" .unknown) = true := by
  intro b t
  have h : parseBytes .strict b = .ok t := by rfl
  refine ⟨h, (render_read_inverse (.inr rfl)).2 b t h, ?_⟩
  have hiff := (render_read_inverse (.inr rfl)).1 (.atom "a b" .unknown) (by
    intro v bounds hv
    cases List.mem_singleton.1 hv
    decide)
  rw [hiff]
  intro hall
  obtain ⟨-, hchars⟩ := hall "a b" .unknown (List.mem_singleton.2 rfl)
  exact (hchars (.ofChar ' ') (.tail _ (.head _))).1.2.2.1 rfl

end SexpReader
