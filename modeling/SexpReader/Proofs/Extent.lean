import SexpReader.Proofs.Relocation
import SexpReader.Proofs.Spelling

/-!
# Bounds

The bounds of an expression are exact: the bytes between them are the expression, and parsed alone
they give it again, with its bounds counted from its own beginning. This is so at every depth, and
the bytes around the slice have no influence. A slice begins and ends between two glyphs of the
buffer, so it has the same glyphs on its own, however broken the bytes around it are.

Inside a list, the elements lie in a row between the two brackets. A `Dialect.Row` of expressions
has nothing but blanks before, between and behind them.
-/

namespace SexpReader

/-- The bounds of an expression. -/
def Tree.bounds : Node → Bounds
  | .atom _ b | .list _ b => b

/-- The first expression ends before the second begins, or where it begins. -/
def Node.Before (x y : Node) : Prop :=
  ∃ stop ∈ x.bounds.stop, ∃ start ∈ y.bounds.start, stop ≤ start

namespace Utf8

/-- The glyphs of a buffer from one boundary to another. -/
def Between (b : Bytes) (start stop : Nat) (gs : List Glyph) : Prop :=
  ∃ before after, glyphs b = before ++ gs ++ after ∧ Glyph.size before = start ∧
    Glyph.size (before ++ gs) = stop

variable {b : Bytes} {start stop : Nat} {gs hs : List Glyph}

theorem size_glyphs (b : Bytes) : Glyph.size (glyphs b) = b.length := by
  rw [Glyph.size, flatMap_bytes_glyphs]

theorem Between.stop_eq (h : Between b start stop gs) : stop = start + Glyph.size gs := by
  obtain ⟨before, after, -, rfl, rfl⟩ := h
  exact Glyph.size_append before gs

theorem Between.stop_le (h : Between b start stop gs) : stop ≤ b.length := by
  obtain ⟨before, after, hb, rfl, rfl⟩ := h
  rw [← size_glyphs, hb, Glyph.size_append (before ++ gs)]
  exact Nat.le_add_right _ _

/-- The bytes between two boundaries are those of the glyphs there. -/
theorem Between.window (h : Between b start stop gs) :
    Index.window b start stop = gs.flatMap Glyph.bytes := by
  rw [h.stop_eq]
  obtain ⟨before, after, hb, rfl, -⟩ := h
  have hdrop : b.drop (Glyph.size before) = (gs ++ after).flatMap Glyph.bytes := by
    rw [List.append_assoc] at hb
    exact drop_of_glyphs_eq hb
  rw [Int.natCast_add, Index.window_natCast, hdrop, List.flatMap_append]
  exact List.take_left

/-- Cut out of the buffer, the bytes between two boundaries have the same glyphs. -/
theorem Between.glyphs_window (h : Between b start stop gs) :
    glyphs (Index.window b start stop) = gs := by
  rw [h.window]
  obtain ⟨before, after, hb, -, -⟩ := h
  obtain ⟨hfront, -, -⟩ := glyphs_eq_append hb
  exact (glyphs_eq_append hfront).2.1

theorem Between.append (h : Between b start stop (gs ++ hs)) :
    Between b start (start + Glyph.size gs) gs ∧ Between b (start + Glyph.size gs) stop hs := by
  obtain ⟨before, after, hb, rfl, rfl⟩ := h
  refine ⟨⟨before, hs ++ after, by simpa using hb, rfl, Glyph.size_append before gs⟩,
    ⟨before ++ gs, after, by simpa using hb, Glyph.size_append before gs, by simp⟩⟩

theorem length_pos_of_mem_glyphs {g : Glyph} (h : g ∈ glyphs b) : 0 < g.bytes.length := by
  obtain ⟨lead, rest, rfl⟩ := exists_glyph_of_mem_glyphs h
  exact length_glyph_pos lead rest

theorem Between.size_pos (h : Between b start stop gs) (hne : gs ≠ []) : 0 < Glyph.size gs := by
  obtain ⟨before, after, hb, -, -⟩ := h
  obtain ⟨g, gs, rfl⟩ := List.exists_cons_of_ne_nil hne
  have hpos : 0 < g.bytes.length := length_pos_of_mem_glyphs (b := b) (by rw [hb]; simp)
  rw [Glyph.size, List.flatMap_cons, List.length_append]
  omega

theorem between_glyphs (b : Bytes) : Between b 0 b.length (glyphs b) :=
  ⟨[], [], by simp, rfl, size_glyphs b⟩

end Utf8

namespace Dialect

/-- Expressions that lie one behind the other between two boundaries of a buffer, with nothing but
blanks before, between and behind them. -/
inductive Row (d : Dialect) (b : Bytes) : (start stop : Nat) → List Node → Prop where
  | nil {start stop : Nat} {gap : List Glyph} (hgap : Utf8.Between b start stop gap)
      (hblank : ∀ g ∈ gap, d.isBlank g = true) : Row d b start stop []
  | cons {start first last stop : Nat} {gap : List Glyph} {x : Node} {xs : List Node}
      (hgap : Utf8.Between b start first gap) (hblank : ∀ g ∈ gap, d.isBlank g = true)
      (hx : x.bounds = .between first last) (hlt : first < last)
      (hmore : Row d b last stop xs) : Row d b start stop (x :: xs)

variable {d : Dialect} {b : Bytes} {start stop : Nat} {gs : List Glyph} {n x : Node}
  {xs : List Node}

theorem Row.le (h : d.Row b start stop xs) : start ≤ stop := by
  induction h with
  | nil hgap =>
      have hstop := hgap.stop_eq
      omega
  | cons hgap _ _ hlt _ ih =>
      have hfirst := hgap.stop_eq
      omega

/-- What is in a row lies between its ends. -/
theorem Row.mem (h : d.Row b start stop xs) (hx : x ∈ xs) :
    ∃ first last : Nat, x.bounds = .between first last ∧ start ≤ first ∧ first < last ∧
      last ≤ stop := by
  induction h with
  | nil => cases hx
  | cons hgap _ hbounds hlt hmore ih =>
      have hfirst := hgap.stop_eq
      rcases List.mem_cons.1 hx with rfl | hx
      · exact ⟨_, _, hbounds, by omega, hlt, hmore.le⟩
      · obtain ⟨first, last, hbounds', hle, hlt', hstop⟩ := ih hx
        exact ⟨first, last, hbounds', by omega, hlt', hstop⟩

/-- What is in a row does not overlap and is in order. -/
theorem Row.pairwise (h : d.Row b start stop xs) : xs.Pairwise Node.Before := by
  induction h with
  | nil => exact .nil
  | cons _ _ hbounds _ hmore ih =>
      refine .cons ?_ ih
      intro y hy
      obtain ⟨first, last, hbounds', hle, -, -⟩ := hmore.mem hy
      refine ⟨_, by rw [hbounds]; rfl, first, by rw [hbounds']; rfl, ?_⟩
      exact Int.ofNat_le.2 hle

theorem Spells.bounds (h : d.Spells start gs n) :
    n.bounds = .between start (start + Glyph.size gs) := by
  cases h <;> rfl

theorem Spells.ne_nil (h : d.Spells start gs n) : gs ≠ [] := by
  obtain ⟨g, hg, -⟩ := h.head?
  rintro rfl
  cases hg

/-- Expressions that are spelled between two boundaries, with blanks before them, are in a row. -/
theorem SpellsAll.row (h : d.SpellsAll start gs xs) {origin stop : Nat} {blanks : List Glyph}
    (hblanks : ∀ g ∈ blanks, d.isBlank g = true) (hstart : start = origin + Glyph.size blanks)
    (hb : Utf8.Between b origin stop (blanks ++ gs)) : d.Row b origin stop xs := by
  induction xs generalizing start gs origin blanks with
  | nil =>
      cases h
      rw [List.append_nil] at hb
      exact .nil hb hblanks
  | cons x xs ih =>
      cases h with
      | @cons _ e blanks' more _ _ hx hblanks' hmore hapart =>
          rw [List.append_assoc] at hb
          obtain ⟨hgap, hrest⟩ := hb.append
          rw [← hstart] at hgap hrest
          obtain ⟨he, hrest⟩ := hrest.append
          have hpos := he.size_pos hx.ne_nil
          refine .cons hgap hblanks hx.bounds (by omega) (ih hmore hblanks' ?_ hrest)
          rw [Glyph.size_append, Nat.add_assoc]

/-- A list begins and ends with a bracket, and its elements are in a row between the two. -/
theorem Spells.row {bounds : Bounds} (h : d.Spells start gs (.list xs bounds))
    (hb : Utf8.Between b start stop gs) :
    ∃ first inner last, gs = first :: inner ++ [last] ∧ first.char = d.opening ∧
      last.char = d.closing ∧
      d.Row b (start + first.bytes.length) (stop - last.bytes.length) xs := by
  cases h with
  | @list _ first last blanks inner _ hfirst hblanks hinner hlast =>
      refine ⟨first, blanks ++ inner, last, rfl, eq_opening_of_classify hfirst,
        eq_closing_of_classify hlast, ?_⟩
      have hfirst' : Glyph.size [first] = first.bytes.length := by simp [Glyph.size]
      have hlast' : Glyph.size [last] = last.bytes.length := by simp [Glyph.size]
      have hstop := hb.stop_eq
      rw [List.cons_append, Glyph.size_cons, Glyph.size_append, hfirst', hlast'] at hstop
      have hb' : Utf8.Between b start stop ([first] ++ (blanks ++ inner ++ [last])) := hb
      obtain ⟨-, hrest⟩ := hb'.append
      obtain ⟨hmiddle, -⟩ := hrest.append
      rw [hfirst'] at hmiddle
      refine hinner.row hblanks ?_ ?_
      · rw [Glyph.size_cons, hfirst', Nat.add_assoc]
      · have hstop' : stop - last.bytes.length =
            start + first.bytes.length + Glyph.size (blanks ++ inner) := by omega
        rw [hstop']
        exact hmiddle

end Dialect

theorem Bounds.shift_neg_shift (offset : Int) (b : Bounds) :
    (b.shift offset).shift (-offset) = b := by
  obtain ⟨_ | start, _ | stop⟩ := b <;>
    simp only [shift, Option.map_none, Option.map_some, Int.add_neg_cancel_right]

namespace Tree

variable {α : Type}

mutual

/-- Moving there and back changes nothing. -/
theorem shift_neg_shift (offset : Int) : ∀ t : Tree α, (t.shift offset).shift (-offset) = t
  | .atom v b => by rw [shift, shift, Bounds.shift_neg_shift]
  | .list xs b => by
      rw [shift, shift, Bounds.shift_neg_shift, shiftAll_neg_shiftAll offset xs]
  | .leaf x => rfl

theorem shiftAll_neg_shiftAll (offset : Int) :
    ∀ xs : List (Tree α), shiftAll (-offset) (shiftAll offset xs) = xs
  | [] => rfl
  | x :: xs => by
      rw [shiftAll, shiftAll, shift_neg_shift offset x, shiftAll_neg_shiftAll offset xs]

end

end Tree

/-- The slice between the bounds of an expression gives the expression again. -/
theorem parseBytes_window {d : Dialect} {b : Bytes} {start stop : Nat} {gs : List Glyph} {n : Node}
    (h : d.Spells start gs n) (hb : Utf8.Between b start stop gs) :
    parseBytes d (Index.window b start stop) = .ok (n.shift (-start)) := by
  have hthere : (Reader.readGlyphs d false ⟨start, 1, 1⟩ ([] ++ gs ++ [])).whole = .ok n :=
    Reader.whole_of_spells (List.forall_mem_nil _) h (List.forall_mem_nil _) false
  rw [List.nil_append, List.append_nil, Reader.readGlyphs_beyond, Reading.whole_beyond] at hthere
  rw [parseBytes_eq, hb.glyphs_window]
  cases halone : (Reader.readGlyphs d false .origin gs).whole with
  | error f =>
      rw [halone] at hthere
      cases hthere
  | ok n' =>
      rw [halone] at hthere
      cases hthere
      rw [Tree.shift_neg_shift]

/-- Every expression that is parsed is spelled between two boundaries. -/
theorem exists_between_of_mem_preorder {d : Dialect} {b : Bytes} {root n : Node}
    (h : parseBytes d b = .ok root) (hn : n ∈ root.preorder) :
    ∃ start stop gs, d.Spells start gs n ∧ Utf8.Between b start stop gs := by
  obtain ⟨blanks, gs, tail, hsplit, -, hroot, -⟩ := spells_of_parseBytes h
  obtain ⟨before, seg, after, rfl, hseg⟩ := hroot.of_mem_preorder hn
  refine ⟨_, _, seg, hseg, blanks ++ before, after ++ tail, ?_, Glyph.size_append blanks before, rfl⟩
  simpa using hsplit

/-- Bounds are exact. The expression that is parsed has nothing but blanks around it. It and every
expression inside it has bounds that are not empty; the slice between them gives the expression
again, with bounds counted from there; and if it is a list, the slice begins and ends with a
bracket, and between the two the elements lie in a row. -/
theorem bounds_exact {d : Dialect} {b : Bytes} {root : Node} (h : parseBytes d b = .ok root) :
    d.Row b 0 b.length [root] ∧
    ∀ n ∈ root.preorder, ∃ start stop : Nat, n.bounds = .between start stop ∧
      start < stop ∧ stop ≤ b.length ∧
      parseBytes d (Index.window b start stop) = .ok (n.shift (-start)) ∧
      ∀ xs bounds, n = .list xs bounds → ∃ first inner last,
        Utf8.glyphs (Index.window b start stop) = first :: inner ++ [last] ∧
        first.char = d.opening ∧ last.char = d.closing ∧
        d.Row b (start + first.bytes.length) (stop - last.bytes.length) xs ∧
        (∀ x ∈ xs, ∃ start' stop' : Nat, x.bounds = .between start' stop' ∧
          start + first.bytes.length ≤ start' ∧ stop' ≤ stop - last.bytes.length) ∧
        xs.Pairwise Node.Before := by
  obtain ⟨blanks, gs, tail, hsplit, hblanks, hroot, htail⟩ := spells_of_parseBytes h
  have hall : Utf8.Between b 0 b.length (blanks ++ (gs ++ tail)) := by
    rw [← List.append_assoc, ← hsplit]
    exact Utf8.between_glyphs b
  obtain ⟨hfront, hbody⟩ := hall.append
  rw [Nat.zero_add] at hfront hbody
  obtain ⟨hgs, hback⟩ := hbody.append
  have hpos := hgs.size_pos hroot.ne_nil
  refine ⟨.cons hfront hblanks hroot.bounds (by omega) (.nil hback htail), ?_⟩
  intro n hn
  obtain ⟨start, stop, seg, hseg, hseg'⟩ := exists_between_of_mem_preorder h hn
  have hpos := hseg'.size_pos hseg.ne_nil
  have hstop := hseg'.stop_eq
  refine ⟨start, stop, by rw [hseg.bounds, hstop], by omega, hseg'.stop_le,
    parseBytes_window hseg hseg', ?_⟩
  rintro xs bounds rfl
  obtain ⟨first, inner, last, hchars, hfirst, hlast, hrow⟩ := hseg.row hseg'
  refine ⟨first, inner, last, by rw [hseg'.glyphs_window, hchars], hfirst, hlast, hrow, ?_,
    hrow.pairwise⟩
  intro x hx
  obtain ⟨start, stop, hbounds, hle, -, hstop⟩ := hrow.mem hx
  exact ⟨start, stop, hbounds, hle, hstop⟩

/-- A list next to a character that breaks off. Cut out of the buffer, it is read as before. -/
theorem bounds_beside_broken_character :
    let b : Bytes := [0x28, 0x61, 0xC3, 0x28, 0xC3, 0xA9, 0x29, 0x29]
    let inner : Node := .list [.atom "\u00e9" (.between 4 6)] (.between 3 7)
    parseBytes .standard b =
        .ok (.list [.atom "a\ufffd" (.between 1 3), inner] (.between 0 8)) ∧
      ∃ start stop : Nat, inner.bounds = .between start stop ∧
        parseBytes .standard (Index.window b start stop) = .ok (inner.shift (-start)) := by
  intro b inner
  have h : parseBytes .standard b =
      .ok (.list [.atom "a\ufffd" (.between 1 3), inner] (.between 0 8)) := by rfl
  obtain ⟨start, stop, hbounds, -, -, hslice, -⟩ :=
    (bounds_exact h).2 inner (.tail _ (.tail _ (.head _)))
  exact ⟨h, start, stop, hbounds, hslice⟩

end SexpReader
