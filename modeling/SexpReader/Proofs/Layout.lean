import SexpReader.Proofs.Lexeme
import SexpReader.Proofs.Outline

/-!
# How sources are laid out

Every source has one of five layouts, which are told apart by counting brackets. It may be blank;
its first character may be a stray closing bracket; it may begin with a list that is nowhere
closed; or it begins with a complete expression, and behind that there is nothing but blanks or
there is something more. To each layout belongs one way in which parsing ends.
-/

namespace SexpReader

namespace Dialect

variable {d : Dialect}

/-- The number of opening brackets. -/
def opens (d : Dialect) (gs : List Glyph) : Nat := gs.countP fun g => d.classify g.char = .opening

/-- The number of closing brackets. -/
def closes (d : Dialect) (gs : List Glyph) : Nat := gs.countP fun g => d.classify g.char = .closing

/-- At no place behind the first glyph has every opening bracket been closed. -/
def Unclosed (d : Dialect) (gs : List Glyph) : Prop :=
  ∀ p, p ≠ [] → p <+: gs → d.closes p < d.opens p

/-- Of a source `e ++ rest`, the part `e` is the first expression: the longest run of constituents,
or a list up to the closing bracket that balances its opening one. -/
inductive FirstExpression (d : Dialect) : List Glyph → List Glyph → Prop where
  | atom {e rest : List Glyph} (hne : e ≠ []) (he : ∀ g ∈ e, d.isConstituent g = true)
      (hrest : ∀ g ∈ rest.head?, d.isConstituent g = false) : FirstExpression d e rest
  | list {e rest : List Glyph} {g : Glyph} (he : d.Unclosed e)
      (hg : d.classify g.char = .closing) (hbalance : d.opens e = d.closes e + 1) :
      FirstExpression d (e ++ [g]) rest

theorem opens_append (gs hs : List Glyph) : d.opens (gs ++ hs) = d.opens gs + d.opens hs :=
  List.countP_append

theorem closes_append (gs hs : List Glyph) : d.closes (gs ++ hs) = d.closes gs + d.closes hs :=
  List.countP_append

theorem counts_of_opening {g : Glyph} (h : d.classify g.char = .opening) :
    d.opens [g] = 1 ∧ d.closes [g] = 0 := by
  simp [opens, closes, h]

theorem counts_of_closing {g : Glyph} (h : d.classify g.char = .closing) :
    d.opens [g] = 0 ∧ d.closes [g] = 1 := by
  simp [opens, closes, h]

theorem counts_of_ne {g : Glyph} (ho : d.classify g.char ≠ .opening)
    (hc : d.classify g.char ≠ .closing) : d.opens [g] = 0 ∧ d.closes [g] = 0 := by
  simp [opens, closes, ho, hc]

theorem opening_of_closes_lt_opens {g : Glyph} (h : d.closes [g] < d.opens [g]) :
    d.classify g.char = .opening := by
  by_cases ho : d.classify g.char = .opening
  · exact ho
  · by_cases hc : d.classify g.char = .closing
    · rw [(counts_of_closing hc).1] at h
      exact (Nat.not_lt_zero _ h).elim
    · rw [(counts_of_ne ho hc).1] at h
      exact (Nat.not_lt_zero _ h).elim

theorem unclosed_concat_iff {gs : List Glyph} {g : Glyph} :
    d.Unclosed (gs ++ [g]) ↔ d.Unclosed gs ∧ d.closes (gs ++ [g]) < d.opens (gs ++ [g]) := by
  constructor
  · intro h
    constructor
    · intro p hne hp
      exact h p hne (hp.trans (List.prefix_append gs [g]))
    · exact h _ (by simp) (List.prefix_refl _)
  · rintro ⟨hgs, hlt⟩ p hne hp
    rcases List.prefix_concat_iff.1 hp with rfl | hp
    · exact hlt
    · exact hgs p hne hp

/-- A source that begins with an opening bracket is unclosed, or it begins with a list. -/
theorem unclosed_or_exists_list {gs : List Glyph}
    (h : ∀ g ∈ gs.head?, d.classify g.char = .opening) :
    d.Unclosed gs ∨ ∃ e g rest, gs = e ++ g :: rest ∧ d.Unclosed e ∧
      d.classify g.char = .closing ∧ d.opens e = d.closes e + 1 := by
  induction gs using List.reverseRecOn with
  | nil =>
      left
      intro p hne hp
      exact (hne (List.prefix_nil.1 hp)).elim
  | append_singleton gs g ih =>
      by_cases hnil : gs = []
      · subst hnil
        have hg : d.classify g.char = .opening := h g rfl
        left
        rw [unclosed_concat_iff]
        refine ⟨?_, ?_⟩
        · intro p hne hp
          exact (hne (List.prefix_nil.1 hp)).elim
        · rw [List.nil_append, (counts_of_opening hg).1, (counts_of_opening hg).2]
          exact Nat.zero_lt_one
      · have hhead : (gs ++ [g]).head? = gs.head? := List.head?_append_of_ne_nil _ hnil
        rw [hhead] at h
        rcases ih h with hgs | ⟨e, g', rest, rfl, he⟩
        · by_cases hlt : d.closes (gs ++ [g]) < d.opens (gs ++ [g])
          · exact Or.inl (unclosed_concat_iff.2 ⟨hgs, hlt⟩)
          · -- The count of closing brackets has caught up, so `g` is one and closes the list.
            have hgslt := hgs gs hnil (List.prefix_refl gs)
            rw [opens_append, closes_append] at hlt
            right
            by_cases hc : d.classify g.char = .closing
            · obtain ⟨ho, hc'⟩ := counts_of_closing hc
              exact ⟨gs, g, [], rfl, hgs, hc, by omega⟩
            · by_cases ho : d.classify g.char = .opening
              · obtain ⟨ho', hc'⟩ := counts_of_opening ho
                omega
              · obtain ⟨ho', hc'⟩ := counts_of_ne ho hc
                omega
        · right
          exact ⟨e, g', rest ++ [g], by simp, he⟩

end Dialect

namespace Outline

variable {d : Dialect}

theorem after_seeking_of_blank (n : Nat) {gs : List Glyph}
    (h : ∀ g ∈ gs, d.isBlank g = true) : (seeking n).after d gs = .seeking n := by
  induction gs with
  | nil => rfl
  | cons g gs ih =>
      rw [after_cons, seeking_step_of_isBlank (h g List.mem_cons_self)]
      exact ih fun x hx => h x (List.mem_cons_of_mem g hx)

theorem after_complete_of_blank (n : Nat) {gs : List Glyph}
    (h : ∀ g ∈ gs, d.isBlank g = true) : (complete n).after d gs = .complete n := by
  induction gs with
  | nil => rfl
  | cons g gs ih =>
      rw [after_cons, complete_step_of_isBlank (h g List.mem_cons_self)]
      exact ih fun x hx => h x (List.mem_cons_of_mem g hx)

theorem after_inAtom_of_constituent (n : Nat) {gs : List Glyph}
    (h : ∀ g ∈ gs, d.isConstituent g = true) : (inAtom n).after d gs = .inAtom n := by
  induction gs with
  | nil => rfl
  | cons g gs ih =>
      have hstep : (inAtom n).step (d.classify g.char) = .inAtom n := by
        rw [Dialect.isConstituent_iff.1 (h g List.mem_cons_self)]
        rfl
      rw [after_cons, hstep]
      exact ih fun x hx => h x (List.mem_cons_of_mem g hx)

/-- With a list open, brackets change the depth and nothing else does. -/
theorem depth?_step {o : Outline} {n : Nat} (h : o.depth? = some (n + 1)) (g : Glyph) :
    (o.step (d.classify g.char)).depth? = some (n + 1 + d.opens [g] - d.closes [g]) := by
  cases hk : d.classify g.char <;> cases o <;> cases h <;>
    simp [step, depth?, Dialect.opens, Dialect.closes, hk]

/-- An unclosed source leaves as many lists open as its brackets say. -/
theorem depth?_of_unclosed {gs : List Glyph} (hne : gs ≠ []) (h : d.Unclosed gs) :
    ((seeking 0).after d gs).depth? = some (d.opens gs - d.closes gs) := by
  induction gs using List.reverseRecOn with
  | nil => exact (hne rfl).elim
  | append_singleton gs g ih =>
      obtain ⟨hgs, hlt⟩ := Dialect.unclosed_concat_iff.1 h
      rw [after_concat, Dialect.opens_append, Dialect.closes_append]
      rw [Dialect.opens_append, Dialect.closes_append] at hlt
      by_cases hnil : gs = []
      · subst hnil
        have hg : d.classify g.char = .opening := by
          apply Dialect.opening_of_closes_lt_opens
          simpa [Dialect.opens, Dialect.closes] using hlt
        obtain ⟨ho, hc⟩ := Dialect.counts_of_opening hg
        rw [ho, hc, hg]
        rfl
      · have hpos := hgs gs hnil (List.prefix_refl gs)
        obtain ⟨n, hn⟩ : ∃ n, d.opens gs - d.closes gs = n + 1 :=
          ⟨d.opens gs - d.closes gs - 1, by omega⟩
        have ih' := ih hnil hgs
        rw [hn] at ih'
        rw [depth?_step ih' g]
        congr 1
        omega

/-- After the first expression it is done, and whatever is no blank goes beyond it. -/
theorem after_firstExpression {e rest : List Glyph} (h : d.FirstExpression e rest) :
    (seeking 0).after d e = .complete 0 ∨
      ((seeking 0).after d e = .inAtom 0 ∧ ∀ g ∈ rest.head?, d.isConstituent g = false) := by
  cases h with
  | @atom e rest hne he hrest =>
      right
      refine ⟨?_, hrest⟩
      cases e with
      | nil => exact (hne rfl).elim
      | cons g e =>
          have hstep : (seeking 0).step (d.classify g.char) = .inAtom 0 := by
            rw [Dialect.isConstituent_iff.1 (he g List.mem_cons_self)]
            rfl
          rw [after_cons, hstep]
          exact after_inAtom_of_constituent 0 fun x hx => he x (List.mem_cons_of_mem g hx)
  | @list e rest g he hg hbalance =>
      left
      have hne : e ≠ [] := by
        intro hnil
        rw [hnil] at hbalance
        cases hbalance
      have hdepth := depth?_of_unclosed hne he
      rw [hbalance, Nat.add_sub_cancel_left] at hdepth
      rw [after_concat, hg]
      cases ho : (seeking 0).after d e <;> rw [ho] at hdepth <;> cases hdepth <;> rfl

/-- The blanks after the first expression, and the glyph after them. -/
theorem after_firstExpression_blanks {e blanks rest : List Glyph}
    (h : d.FirstExpression e (blanks ++ rest)) (hb : ∀ g ∈ blanks, d.isBlank g = true) :
    ((seeking 0).after d (e ++ blanks)).IsDone ∧
      ∀ g ∈ rest.head?, d.isBlank g = false →
        ((seeking 0).after d (e ++ blanks)).step (d.classify g.char) = .stopped := by
  have hcomplete : ∀ g, d.isBlank g = false →
      (complete 0).step (d.classify g.char) = .stopped := by
    intro g hg
    unfold Dialect.isBlank at hg
    cases hk : d.classify g.char with
    | newline | blank => rw [hk] at hg; cases hg
    | opening | closing | constituent => rfl
  rw [after_append]
  rcases after_firstExpression h with ho | ⟨ho, hrest⟩
  · rw [ho, after_complete_of_blank 0 hb]
    exact ⟨Or.inr rfl, fun g _ hg => hcomplete g hg⟩
  · rw [ho]
    cases blanks with
    | nil =>
        refine ⟨Or.inl rfl, ?_⟩
        intro g hmem hg
        have hatom := Dialect.isConstituent_eq_false_iff.1 (hrest g hmem)
        unfold Dialect.isBlank at hg
        cases hk : d.classify g.char with
        | newline | blank => rw [hk] at hg; cases hg
        | opening | closing => rfl
        | constituent => exact (hatom hk).elim
    | cons b blanks =>
        rw [after_cons, inAtom_step_of_isBlank (hb b List.mem_cons_self),
          after_complete_of_blank 0 fun x hx => hb x (List.mem_cons_of_mem b hx)]
        exact ⟨Or.inr rfl, fun g _ hg => hcomplete g hg⟩

end Outline

end SexpReader
