import SexpReader.Proofs.Encoding
import SexpReader.Proofs.Outline
import SexpReader.Proofs.Place
import SexpReader.Proofs.Replacement
import SexpReader.Proofs.Spelling

/-!
# Sources with the same pattern

The pattern of a source is the classes of its glyphs, one after the other. Two sources may have the
same pattern under two dialects although no character of theirs is the same and the characters are
of different widths. Then they are read in the same way. What is read from them is parallel: trees
of the same shape, in which nodes that correspond to each other reach over the same glyphs, counted
from the start of the source; or failures of the same sort in the same line and column.

For failures this follows from the outlines of the two readings, which are the same outline. For
trees it follows from the way in which sources are spelled: a source with the pattern of another
one spells a tree of the same shape.
-/

namespace SexpReader

namespace Glyph

/-- The number of bytes of the first `i` glyphs. -/
def offset (gs : List Glyph) (i : Nat) : Nat := size (gs.take i)

/-- The text of the glyphs from the index `i` up to the index `j`. -/
def text (gs : List Glyph) (i j : Nat) : Text :=
  Utf8.decodeLossy (((gs.take j).drop i).flatMap Glyph.bytes)

variable {gs before seg : List Glyph}

theorem offset_of_prefix (h : before <+: gs) : offset gs before.length = size before := by
  obtain ⟨after, rfl⟩ := h
  rw [offset, List.take_left]

theorem text_of_prefix (h : before ++ seg <+: gs) :
    text gs before.length (before ++ seg).length = Utf8.decodeLossy (seg.flatMap Glyph.bytes) := by
  obtain ⟨after, rfl⟩ := h
  rw [text, List.take_left, List.drop_left]

theorem offset_written (t : Text) (i : Nat) :
    offset (Utf8.written t) i = ((t.take i).flatMap Utf8.encode).length := by
  rw [offset, size, Utf8.written, ← List.map_take, ← Utf8.written, Utf8.flatMap_bytes_written]

theorem text_written {t : Text} (ht : ∀ c ∈ t, c.isSurrogate = false) (i j : Nat) :
    text (Utf8.written t) i j = (t.take j).drop i := by
  rw [text, Utf8.written, ← List.map_take, ← List.map_drop, ← Utf8.written,
    Utf8.flatMap_bytes_written]
  exact Utf8.decodeLossy_flatMap_encode fun c hc =>
    ht c (List.mem_of_mem_take (List.mem_of_mem_drop hc))

end Glyph

namespace Dialect

/-- The classes of glyphs, one after the other. -/
def pattern (d : Dialect) (gs : List Glyph) : List CharClass := gs.map fun g => d.classify g.char

variable {d e : Dialect} {gs hs gs' hs' : List Glyph}

theorem length_pattern (d : Dialect) (gs : List Glyph) : (d.pattern gs).length = gs.length :=
  List.length_map _

theorem pattern_written (d : Dialect) (t : Text) :
    d.pattern (Utf8.written t) = t.map d.classify := by
  rw [pattern, Utf8.written, List.map_map]
  rfl

theorem length_eq_of_pattern (h : d.pattern gs = e.pattern hs) : gs.length = hs.length := by
  rw [← d.length_pattern gs, h, length_pattern]

/-- A source with the pattern of two parts has two such parts. -/
theorem exists_append_of_pattern (h : d.pattern (gs ++ gs') = e.pattern hs) :
    ∃ l l', hs = l ++ l' ∧ d.pattern gs = e.pattern l ∧ d.pattern gs' = e.pattern l' := by
  rw [pattern, List.map_append] at h
  obtain ⟨l, l', hhs, hl, hl'⟩ := List.map_eq_append_iff.1 h.symm
  exact ⟨l, l', hhs, hl.symm, hl'.symm⟩

theorem exists_cons_of_pattern {g : Glyph} (h : d.pattern (g :: gs) = e.pattern hs) :
    ∃ g' l, hs = g' :: l ∧ d.classify g.char = e.classify g'.char ∧
      d.pattern gs = e.pattern l := by
  rw [pattern, List.map_cons] at h
  obtain ⟨g', l, hhs, hg, hl⟩ := List.map_eq_cons_iff.1 h.symm
  exact ⟨g', l, hhs, hg.symm, hl.symm⟩

theorem isBlank_of_pattern (h : d.pattern gs = e.pattern hs)
    (hgs : ∀ g ∈ gs, d.isBlank g = true) : ∀ g ∈ hs, e.isBlank g = true := by
  have hblank : ∀ k ∈ d.pattern gs, k.isBlank = true := by
    intro k hk
    obtain ⟨g, hg, rfl⟩ := List.mem_map.1 hk
    exact hgs g hg
  rw [h] at hblank
  exact fun g hg => hblank _ (List.mem_map_of_mem hg)

theorem isConstituent_of_pattern (h : d.pattern gs = e.pattern hs)
    (hgs : ∀ g ∈ gs, d.isConstituent g = true) : ∀ g ∈ hs, e.isConstituent g = true := by
  have hconstituent : ∀ k ∈ d.pattern gs, k = .constituent := by
    intro k hk
    obtain ⟨g, hg, rfl⟩ := List.mem_map.1 hk
    exact isConstituent_iff.1 (hgs g hg)
  rw [h] at hconstituent
  exact fun g hg => isConstituent_iff.2 (hconstituent _ (List.mem_map_of_mem hg))

theorem apart_iff : d.Apart gs hs ↔
    ¬ ((d.pattern gs).getLast? = some .constituent ∧ (d.pattern hs).head? = some .constituent) := by
  rw [pattern, pattern, List.getLast?_map, List.head?_map, Option.map_eq_some_iff,
    Option.map_eq_some_iff]
  constructor
  · rintro h ⟨⟨g, hg, hk⟩, g', hg', hk'⟩
    have hfalse := h g hg g' hg'
    rw [isConstituent_iff.2 hk, isConstituent_iff.2 hk'] at hfalse
    cases hfalse
  · intro h g hg g' hg'
    rw [Bool.and_eq_false_iff]
    by_cases hk : d.classify g.char = .constituent
    · right
      rw [isConstituent_eq_false_iff]
      exact fun hk' => h ⟨⟨g, hg, hk⟩, g', hg', hk'⟩
    · exact .inl (isConstituent_eq_false_iff.2 hk)

theorem Apart.of_pattern (h : d.Apart gs gs') (hgs : d.pattern gs = e.pattern hs)
    (hgs' : d.pattern gs' = e.pattern hs') : e.Apart hs hs' := by
  rw [apart_iff, hgs, hgs'] at h
  exact apart_iff.2 h

end Dialect

/-! ## Parallel outcomes -/

namespace Node

mutual

/-- Two trees of the same shape, the first read from the glyphs `gs` and the second from `hs`.
Nodes that correspond to each other reach from the same index up to the same index. -/
inductive Parallel (gs hs : List Glyph) : Node → Node → Prop where
  | atom {i j : Nat} (hij : i < j) (hj : j ≤ gs.length) :
      Parallel gs hs
        (.atom (Glyph.text gs i j) (.between (Glyph.offset gs i) (Glyph.offset gs j)))
        (.atom (Glyph.text hs i j) (.between (Glyph.offset hs i) (Glyph.offset hs j)))
  | list {i j : Nat} {xs ys : List Node} (hij : i < j) (hj : j ≤ gs.length)
      (hall : ParallelAll gs hs xs ys) :
      Parallel gs hs
        (.list xs (.between (Glyph.offset gs i) (Glyph.offset gs j)))
        (.list ys (.between (Glyph.offset hs i) (Glyph.offset hs j)))

/-- Sequences of as many trees, which are parallel one by one. -/
inductive ParallelAll (gs hs : List Glyph) : List Node → List Node → Prop where
  | nil : ParallelAll gs hs [] []
  | cons {x y : Node} {xs ys : List Node} (hx : Parallel gs hs x y)
      (hmore : ParallelAll gs hs xs ys) : ParallelAll gs hs (x :: xs) (y :: ys)

end

mutual

/-- Trees that are parallel in the same source are the same. -/
theorem Parallel.eq {gs : List Glyph} : ∀ {n n' : Node}, Parallel gs gs n n' → n = n'
  | _, _, .atom _ _ => rfl
  | _, _, .list _ _ hall => by rw [ParallelAll.eq hall]

theorem ParallelAll.eq {gs : List Glyph} : ∀ {xs ys : List Node}, ParallelAll gs gs xs ys → xs = ys
  | _, _, .nil => rfl
  | _, _, .cons hx hmore => by rw [Parallel.eq hx, ParallelAll.eq hmore]

end

end Node

/-- What parsing comes to for two sources, if it ends in front of the glyphs with the index `k` and
in the same line and column for both. -/
inductive Outcome.Parallel (d e : Dialect) (gs hs : List Glyph) (line column : Int) :
    (k : Nat) → Outcome → Outcome → Prop where
  | expression {n n' : Node} (h : Node.Parallel gs hs n n') :
      Parallel d e gs hs line column gs.length (.ok n) (.ok n')
  | missing : Parallel d e gs hs line column gs.length
      (.error ⟨.endOfInput, "atom or list", line, column⟩)
      (.error ⟨.endOfInput, "atom or list", line, column⟩)
  /-- Both want the closing bracket, which has a name in each of the dialects. -/
  | unclosed : Parallel d e gs hs line column gs.length
      (.error ⟨.endOfInput, d.closingName, line, column⟩)
      (.error ⟨.endOfInput, e.closingName, line, column⟩)
  | surplus {k : Nat} {g h : Glyph} (hg : gs[k]? = some g) (hh : hs[k]? = some h) :
      Parallel d e gs hs line column k
        (.error ⟨.unexpected [g.char], "end of input", line, column⟩)
        (.error ⟨.unexpected [h.char], "end of input", line, column⟩)

/-- Outcomes that are parallel in the same source are the same, if the closing brackets are. -/
theorem Outcome.Parallel.eq {d e : Dialect} {gs : List Glyph} {line column : Int} {k : Nat}
    {o o' : Outcome} (h : Parallel d e gs gs line column k o o')
    (hclosing : d.closing = e.closing) : o = o' := by
  cases h with
  | expression hn => rw [hn.eq]
  | missing => rfl
  | unclosed => rw [Dialect.closingName, Dialect.closingName, hclosing]
  | surplus hg hh =>
      rw [hg, Option.some_inj] at hh
      rw [hh]

/-- Parsing two sources ends in front of the same glyph, in the same line and column, with parallel
outcomes. -/
def Parsed.Parallel (d e : Dialect) (gs hs : List Glyph) (p q : Parsed) : Prop :=
  ∃ k line column, p.cursor.mark = ⟨Glyph.offset gs k, line, column⟩ ∧
    q.cursor.mark = ⟨Glyph.offset hs k, line, column⟩ ∧
    Outcome.Parallel d e gs hs line column k p.outcome q.outcome

/-! ## Trees -/

namespace Dialect

/-- The glyphs `seg` behind `before` in the source `gs`, and `seg'` behind `before'` in the source
`hs`, stand at the same index and have the same pattern. -/
structure Aligned (d e : Dialect) (gs hs before seg before' seg' : List Glyph) : Prop where
  left : before ++ seg <+: gs
  right : before' ++ seg' <+: hs
  index : before.length = before'.length
  pattern : d.pattern seg = e.pattern seg'

variable {d e : Dialect} {gs hs before seg before' seg' : List Glyph}

/-- Each of two parts of the first segment is aligned with a part of the second. -/
theorem Aligned.append {more : List Glyph}
    (h : Aligned d e gs hs before (seg ++ more) before' seg') :
    ∃ l l', seg' = l ++ l' ∧ Aligned d e gs hs before seg before' l ∧
      Aligned d e gs hs (before ++ seg) more (before' ++ l) l' := by
  obtain ⟨l, l', rfl, hl, hl'⟩ := exists_append_of_pattern h.pattern
  have hleft : before ++ seg ++ more <+: gs := by
    rw [List.append_assoc]
    exact h.left
  have hright : before' ++ l ++ l' <+: hs := by
    rw [List.append_assoc]
    exact h.right
  refine ⟨l, l', rfl, ⟨(List.prefix_append _ _).trans hleft, (List.prefix_append _ _).trans hright,
    h.index, hl⟩, ⟨hleft, hright, ?_, hl'⟩⟩
  rw [List.length_append, List.length_append, h.index, length_eq_of_pattern hl]

theorem Aligned.singleton {g : Glyph} (h : Aligned d e gs hs before [g] before' seg') :
    ∃ g', seg' = [g'] ∧ e.classify g'.char = d.classify g.char := by
  obtain ⟨g', hg', hk⟩ := List.map_eq_singleton_iff.1 h.pattern.symm
  exact ⟨g', hg', hk⟩

theorem Aligned.length_eq (h : Aligned d e gs hs before seg before' seg') :
    (before' ++ seg').length = (before ++ seg).length := by
  rw [List.length_append, List.length_append, h.index, length_eq_of_pattern h.pattern]

/-- Aligned segments reach from the same index up to the same index. -/
theorem Aligned.exists_bounds (h : Aligned d e gs hs before seg before' seg') (hne : seg ≠ []) :
    ∃ i j, i < j ∧ j ≤ gs.length ∧
      Glyph.size before = Glyph.offset gs i ∧
      Glyph.size before + Glyph.size seg = Glyph.offset gs j ∧
      Glyph.size before' = Glyph.offset hs i ∧
      Glyph.size before' + Glyph.size seg' = Glyph.offset hs j ∧
      Utf8.decodeLossy (seg.flatMap Glyph.bytes) = Glyph.text gs i j ∧
      Utf8.decodeLossy (seg'.flatMap Glyph.bytes) = Glyph.text hs i j := by
  have hpos := List.length_pos_of_ne_nil hne
  refine ⟨before.length, (before ++ seg).length, ?_, h.left.length_le, ?_, ?_, ?_, ?_, ?_, ?_⟩
  · rw [List.length_append]
    omega
  · exact (Glyph.offset_of_prefix ((List.prefix_append _ _).trans h.left)).symm
  · rw [Glyph.offset_of_prefix h.left, Glyph.size_append]
  · rw [h.index, Glyph.offset_of_prefix ((List.prefix_append _ _).trans h.right)]
  · rw [← h.length_eq, Glyph.offset_of_prefix h.right, Glyph.size_append]
  · exact (Glyph.text_of_prefix h.left).symm
  · rw [h.index, ← h.length_eq, Glyph.text_of_prefix h.right]

mutual

/-- A segment that is aligned with the source of an expression spells a parallel expression. -/
theorem Spells.parallel : ∀ {start : Nat} {seg : List Glyph} {n : Node}, d.Spells start seg n →
    ∀ {before before' seg' : List Glyph}, start = Glyph.size before →
    Aligned d e gs hs before seg before' seg' →
      ∃ n', e.Spells (Glyph.size before') seg' n' ∧ Node.Parallel gs hs n n'
  | _, run, _, .atom hne hrun, before, before', run', hstart, h => by
      obtain ⟨i, j, hij, hj, hstart', hstop, hstart'', hstop', htext, htext'⟩ :=
        h.exists_bounds hne
      have hne' : run' ≠ [] := by
        rintro rfl
        exact hne (List.map_eq_nil_iff.1 h.pattern)
      refine ⟨_, .atom hne' (isConstituent_of_pattern h.pattern hrun), ?_⟩
      rw [hstart, hstop, hstop', hstart', hstart'', htext, htext']
      exact .atom hij hj
  | _, _, _, @Spells.list _ _ first last blanks inner xs hfirst hblanks hinner hlast,
      before, before', seg', hstart, h => by
      obtain ⟨i, j, hij, hj, hstart', hstop, hstart'', hstop', -, -⟩ :=
        h.exists_bounds (List.cons_ne_nil _ _)
      obtain ⟨front, lasts, rfl, hfront, hlasts⟩ := h.append
      have hfront : Aligned d e gs hs before ([first] ++ (blanks ++ inner)) before' front := hfront
      obtain ⟨firsts, middle, rfl, hfirsts, hmiddle⟩ := hfront.append
      obtain ⟨blanks', inner', rfl, hblanks', hinner'⟩ := hmiddle.append
      obtain ⟨first', rfl, hfirst'⟩ := hfirsts.singleton
      obtain ⟨last', rfl, hlast'⟩ := hlasts.singleton
      obtain ⟨ys, hys, hall⟩ := SpellsAll.parallel hinner (by
        rw [hstart, List.append_assoc, Glyph.size_append before]
        rfl) hinner'
      rw [List.append_assoc, Glyph.size_append before'] at hys
      have hstop' : Glyph.size before' + Glyph.size (first' :: (blanks' ++ inner') ++ [last']) =
          Glyph.offset hs j := hstop'
      have hlist : e.Spells (Glyph.size before') (first' :: (blanks' ++ inner') ++ [last']) _ :=
        .list (hfirst'.trans hfirst) (isBlank_of_pattern hblanks'.pattern hblanks) hys
          (hlast'.trans hlast)
      refine ⟨_, hlist, ?_⟩
      rw [hstart, hstop, hstop', hstart', hstart'']
      exact .list hij hj hall

theorem SpellsAll.parallel : ∀ {start : Nat} {seg : List Glyph} {xs : List Node},
    d.SpellsAll start seg xs →
    ∀ {before before' seg' : List Glyph}, start = Glyph.size before →
    Aligned d e gs hs before seg before' seg' →
      ∃ ys, e.SpellsAll (Glyph.size before') seg' ys ∧ Node.ParallelAll gs hs xs ys
  | _, _, _, .nil, before, before', seg', hstart, h => by
      obtain rfl : seg' = [] := List.map_eq_nil_iff.1 h.pattern.symm
      exact ⟨[], .nil, .nil⟩
  | _, _, _, @SpellsAll.cons _ _ seg blanks more x xs hx hblanks hmore hapart,
      before, before', seg', hstart, h => by
      obtain ⟨front, more', rfl, hfront, hmore'⟩ := h.append
      obtain ⟨seg', blanks', rfl, hseg', hblanks'⟩ := hfront.append
      obtain ⟨y, hy, hxy⟩ := Spells.parallel hx hstart hseg'
      obtain ⟨ys, hys, hall⟩ := SpellsAll.parallel hmore
        (by rw [hstart, Glyph.size_append before]) hmore'
      rw [Glyph.size_append before'] at hys
      refine ⟨y :: ys, .cons hy (isBlank_of_pattern hblanks'.pattern hblanks) hys
        (hapart.of_pattern hseg'.pattern ?_), .cons hxy hall⟩
      rw [pattern, pattern, List.map_append, List.map_append]
      exact congrArg₂ _ hblanks'.pattern hmore'.pattern

end

end Dialect

/-! ## Parsing -/

section

variable {d e : Dialect} {gs hs : List Glyph}

theorem Mark.past_congr {m m' : Mark} (hline : m.line = m'.line) (hcolumn : m.column = m'.column)
    (k : CharClass) (g g' : Glyph) :
    (m.past k g).line = (m'.past k g').line ∧ (m.past k g).column = (m'.past k g').column := by
  unfold past
  split
  · exact ⟨congrArg (· + 1) hline, rfl⟩
  · exact ⟨hline, congrArg (· + 1) hcolumn⟩

/-- Lines and columns are counted by classes. -/
theorem Mark.after_of_pattern {m m' : Mark} (h : d.pattern gs = e.pattern hs)
    (hline : m.line = m'.line) (hcolumn : m.column = m'.column) :
    (m.after d gs).line = (m'.after e hs).line ∧
      (m.after d gs).column = (m'.after e hs).column := by
  induction gs generalizing hs m m' with
  | nil =>
      obtain rfl : hs = [] := List.map_eq_nil_iff.1 h.symm
      exact ⟨hline, hcolumn⟩
  | cons g gs ih =>
      obtain ⟨g', hs, rfl, hk, hrest⟩ := Dialect.exists_cons_of_pattern h
      obtain ⟨hline', hcolumn'⟩ := past_congr hline hcolumn (d.classify g.char) g g'
      rw [hk] at hline' hcolumn'
      rw [after, after, List.foldl_cons, List.foldl_cons, hk]
      exact ih hrest hline' hcolumn'

/-- The outline of a reading depends on the pattern alone. -/
theorem Outline.after_of_pattern (h : d.pattern gs = e.pattern hs) (o : Outline) :
    o.after d gs = o.after e hs := by
  have hfold (d : Dialect) (gs : List Glyph) : o.after d gs = (d.pattern gs).foldl step o :=
    List.foldl_map.symm
  rw [hfold, hfold, h]

end

section

variable {d e : Dialect} {b b' : Bytes}

theorem Mark.origin_after_eq (d : Dialect) (gs : List Glyph) :
    Mark.origin.after d gs =
      ⟨Glyph.size gs, (Mark.origin.after d gs).line, (Mark.origin.after d gs).column⟩ := by
  have hposition : (Mark.origin.after d gs).position = Glyph.size gs := position_origin_after gs
  rw [← hposition]

/-- After as many glyphs with the same pattern, the places are in the same line and column. -/
theorem Mark.origin_after_of_prefix {gs hs before before' : List Glyph}
    (h : d.pattern before = e.pattern before') (hgs : before <+: gs) (hhs : before' <+: hs) :
    ∃ line column, Mark.origin.after d before = ⟨Glyph.offset gs before.length, line, column⟩ ∧
      Mark.origin.after e before' = ⟨Glyph.offset hs before.length, line, column⟩ := by
  obtain ⟨hline, hcolumn⟩ := Mark.after_of_pattern (m := Mark.origin) h rfl rfl
  refine ⟨(origin.after d before).line, (origin.after d before).column, ?_, ?_⟩
  · rw [Glyph.offset_of_prefix hgs]
    exact origin_after_eq d before
  · rw [Dialect.length_eq_of_pattern h, Glyph.offset_of_prefix hhs, hline, hcolumn]
    exact origin_after_eq e before'

/-- Two sources in which parsing stops in front of a glyph. -/
theorem parse_parallel_of_stopped (h : d.pattern (Utf8.glyphs b) = e.pattern (Utf8.glyphs b'))
    (hstopped : (Outline.seeking 0).after d (Utf8.glyphs b) = .stopped) (tracing : Bool) :
    Parsed.Parallel d e (Utf8.glyphs b) (Utf8.glyphs b') ((Cursor.ofBytes b).parse d tracing)
      ((Cursor.ofBytes b').parse e tracing) := by
  obtain ⟨before, g, after, hb, hbefore, hg⟩ := Reader.exists_stop_of_outline hstopped
  rw [hb] at h
  obtain ⟨before', rest, hb', hpattern, hrest⟩ := Dialect.exists_append_of_pattern h
  obtain ⟨g', after', rfl, hk, -⟩ := Dialect.exists_cons_of_pattern hrest
  have houtline := Outline.after_of_pattern hpattern (.seeking 0)
  have hbefore' := hbefore
  have hg' := hg
  rw [houtline] at hbefore'
  rw [houtline, hk] at hg'
  obtain ⟨line, column, hmark, hmark'⟩ := Mark.origin_after_of_prefix hpattern
    (hb ▸ List.prefix_append _ _) (hb' ▸ List.prefix_append _ _)
  refine ⟨before.length, line, column, ?_, ?_, ?_⟩
  · rw [← hmark, Cursor.parse]
    change (Reader.readGlyphs d tracing .origin (Utf8.glyphs b)).mark = _
    rw [hb, (Reader.whole_of_stop hbefore hg .origin after).1]
  · rw [← hmark']
    change (Reader.readGlyphs e tracing .origin (Utf8.glyphs b')).mark = _
    rw [hb', (Reader.whole_of_stop hbefore' hg' .origin after').1]
  · change Outcome.Parallel _ _ _ _ _ _ _
      (Reader.readGlyphs d tracing .origin (Utf8.glyphs b)).whole
      (Reader.readGlyphs e tracing .origin (Utf8.glyphs b')).whole
    rw [hb, hb', (Reader.whole_of_stop hbefore hg .origin after).2,
      (Reader.whole_of_stop hbefore' hg' .origin after').2, hmark, hmark']
    refine .surplus ?_ ?_
    · simp
    · simp [Dialect.length_eq_of_pattern hpattern]

/-- A source with the pattern of an expression is a parallel expression. -/
theorem exists_parallel_of_parseBytes
    (h : d.pattern (Utf8.glyphs b) = e.pattern (Utf8.glyphs b')) {n : Node}
    (hn : parseBytes d b = .ok n) (tracing : Bool) :
    ∃ n', (Reader.readGlyphs d tracing .origin (Utf8.glyphs b)).whole = .ok n ∧
      (Reader.readGlyphs e tracing .origin (Utf8.glyphs b')).whole = .ok n' ∧
      Node.Parallel (Utf8.glyphs b) (Utf8.glyphs b') n n' := by
  obtain ⟨blanks, seg, tail, hb, hblanks, hseg, htail⟩ := spells_of_parseBytes hn
  rw [hb] at h
  obtain ⟨front, tail', hb', hfront, htail'⟩ := Dialect.exists_append_of_pattern h
  obtain ⟨blanks', seg', rfl, hblanks', hseg'⟩ := Dialect.exists_append_of_pattern hfront
  have haligned : Dialect.Aligned d e (Utf8.glyphs b) (Utf8.glyphs b') blanks seg blanks' seg' :=
    ⟨hb ▸ List.prefix_append _ _, hb' ▸ List.prefix_append _ _,
      Dialect.length_eq_of_pattern hblanks', hseg'⟩
  obtain ⟨n', hn', hparallel⟩ := hseg.parallel rfl haligned
  rw [← Nat.zero_add (Glyph.size blanks)] at hseg
  rw [← Nat.zero_add (Glyph.size blanks')] at hn'
  refine ⟨n', ?_, ?_, hparallel⟩
  · rw [hb]
    exact Reader.whole_of_spells hblanks hseg htail tracing
  · rw [hb']
    exact Reader.whole_of_spells (Dialect.isBlank_of_pattern hblanks' hblanks) hn'
      (Dialect.isBlank_of_pattern htail' htail) tracing

/-- Two sources that parsing reads to the end. -/
theorem parse_parallel_of_ne_stopped
    (h : d.pattern (Utf8.glyphs b) = e.pattern (Utf8.glyphs b'))
    (hne : (Outline.seeking 0).after d (Utf8.glyphs b) ≠ .stopped) (tracing : Bool) :
    Parsed.Parallel d e (Utf8.glyphs b) (Utf8.glyphs b') ((Cursor.ofBytes b).parse d tracing)
      ((Cursor.ofBytes b').parse e tracing) := by
  have houtline := Outline.after_of_pattern h (.seeking 0)
  have hne' := hne
  rw [houtline] at hne'
  have hlive := Reader.isLive_of_outline_ne tracing .origin hne
  have hlive' := Reader.isLive_of_outline_ne tracing .origin hne'
  obtain ⟨line, column, hmark, hmark'⟩ :=
    Mark.origin_after_of_prefix h List.prefix_rfl List.prefix_rfl
  refine ⟨(Utf8.glyphs b).length, line, column,
    (Reader.readGlyphs_of_isLive hlive).1.trans hmark,
    (Reader.readGlyphs_of_isLive hlive').1.trans hmark', ?_⟩
  change Outcome.Parallel _ _ _ _ _ _ _
    (Reader.readGlyphs d tracing .origin (Utf8.glyphs b)).whole
    (Reader.readGlyphs e tracing .origin (Utf8.glyphs b')).whole
  rcases ((Outline.seeking 0).after d (Utf8.glyphs b)).four_cases with
    hstopped | hdone | hseeking | ⟨n, hdepth⟩
  · exact (hne hstopped).elim
  · have hok : ∃ n, parseBytes d b = .ok n := Reader.whole_of_isDone hdone .origin
    obtain ⟨n, hn⟩ := hok
    obtain ⟨n', hwhole, hwhole', hparallel⟩ := exists_parallel_of_parseBytes h hn tracing
    rw [hwhole, hwhole']
    exact .expression hparallel
  · rw [Reader.whole_of_seeking hseeking, Reader.whole_of_seeking (houtline ▸ hseeking), hmark,
      hmark']
    exact .missing
  · rw [Reader.whole_of_depth hdepth, Reader.whole_of_depth (houtline ▸ hdepth), hmark, hmark']
    exact .unclosed

theorem parse_parallel (h : d.pattern (Utf8.glyphs b) = e.pattern (Utf8.glyphs b'))
    (tracing : Bool) :
    Parsed.Parallel d e (Utf8.glyphs b) (Utf8.glyphs b') ((Cursor.ofBytes b).parse d tracing)
      ((Cursor.ofBytes b').parse e tracing) := by
  by_cases hstopped : (Outline.seeking 0).after d (Utf8.glyphs b) = .stopped
  · exact parse_parallel_of_stopped h hstopped tracing
  · exact parse_parallel_of_ne_stopped h hstopped tracing

end

/-! ## Texts -/

theorem parseText_eq_parseBytes {d : Dialect} {t : Text} (ht : ∀ c ∈ t, c.isSurrogate = false) :
    parseText d t = .ok (parseBytes d (t.flatMap Utf8.encode)) := by
  rw [parseText, Utf8.encodeText_eq_ok_iff.2 ⟨ht, rfl⟩]
  rfl

theorem Dialect.classify_standard_eq_strict {c : CodePoint} (hc : c ∉ standard.extra) :
    standard.classify c = strict.classify c := by
  have hblank : (c = standard.tab ∨ c = standard.space ∨ c ∈ standard.extra) ↔
      (c = strict.tab ∨ c = strict.space ∨ c ∈ strict.extra) := by
    rw [iff_false_intro hc]
    simp only [strict, List.not_mem_nil]
  unfold classify
  simp only [hblank]
  rfl

/-- Where none of the further blanks is written, the strict dialect reads what the standard one
reads. -/
theorem parseText_strict_eq_standard {t : Text} (ht : ∀ c ∈ t, c ∉ Dialect.standard.extra) :
    parseText .strict t = parseText .standard t := by
  unfold parseText
  cases hb : Utf8.encodeText t with
  | error run => rfl
  | ok b =>
      obtain ⟨hscalar, rfl⟩ := Utf8.encodeText_eq_ok_iff.1 hb
      have hpattern : Dialect.standard.pattern (Utf8.glyphs (t.flatMap Utf8.encode)) =
          Dialect.strict.pattern (Utf8.glyphs (t.flatMap Utf8.encode)) := by
        rw [Utf8.glyphs_flatMap_encode hscalar, Dialect.pattern_written, Dialect.pattern_written]
        exact List.map_congr_left fun c hc => Dialect.classify_standard_eq_strict (ht c hc)
      obtain ⟨k, line, column, -, -, hparallel⟩ := parse_parallel hpattern false
      exact congrArg Except.ok (hparallel.eq rfl).symm

/-- Two texts with the same classes of characters are read alike, however wide their characters
are. Both are read as trees of the same shape, in which nodes that correspond to each other take up
the same characters, or both fail in the same way and at the same place. -/
theorem parse_of_same_classes {d e : Dialect} {t u : Text}
    (ht : ∀ c ∈ t, c.isSurrogate = false) (hu : ∀ c ∈ u, c.isSurrogate = false)
    (hclasses : t.map d.classify = u.map e.classify) :
    (∃ b b' p q, Utf8.encodeText t = .ok b ∧ Utf8.encodeText u = .ok b' ∧
      (Cursor.ofBytes b).descend d = pure p ∧ (Cursor.ofBytes b').descend e = pure q ∧
      parseText d t = .ok p.outcome ∧ parseText e u = .ok q.outcome ∧
      Parsed.Parallel d e (Utf8.written t) (Utf8.written u) p q) ∧
    (∀ w : Text, (∀ c ∈ w, c.isSurrogate = false) → ∀ i j,
      (Utf8.written w)[i]?.map Glyph.char = w[i]? ∧
      Glyph.offset (Utf8.written w) i = ((w.take i).flatMap Utf8.encode).length ∧
      Glyph.text (Utf8.written w) i j = (w.take j).drop i) ∧
    (∀ w : Text, (∀ c ∈ w, c ∉ Dialect.standard.extra) →
      parseText .strict w = parseText .standard w) := by
  refine ⟨?_, ?_, fun w hw => parseText_strict_eq_standard hw⟩
  · have hpattern : d.pattern (Utf8.glyphs (t.flatMap Utf8.encode)) =
        e.pattern (Utf8.glyphs (u.flatMap Utf8.encode)) := by
      rw [Utf8.glyphs_flatMap_encode ht, Utf8.glyphs_flatMap_encode hu, Dialect.pattern_written,
        Dialect.pattern_written, hclasses]
    have hparallel := parse_parallel hpattern true
    rw [Utf8.glyphs_flatMap_encode ht, Utf8.glyphs_flatMap_encode hu] at hparallel
    refine ⟨_, _, _, _, Utf8.encodeText_eq_ok_iff.2 ⟨ht, rfl⟩,
      Utf8.encodeText_eq_ok_iff.2 ⟨hu, rfl⟩, Cursor.descend_eq d (Nat.zero_le _),
      Cursor.descend_eq e (Nat.zero_le _), ?_, ?_, hparallel⟩
    · rw [parseText_eq_parseBytes ht, outcome_parse_ofBytes]
    · rw [parseText_eq_parseBytes hu, outcome_parse_ofBytes]
  · intro w hw i j
    refine ⟨?_, Glyph.offset_written w i, Glyph.text_written hw i j⟩
    rw [Utf8.written, List.getElem?_map, Option.map_map]
    exact congrFun Option.map_id w[i]?

/-- The usual blanks, but lists in square brackets. -/
def Dialect.square : Dialect :=
  { standard with opening := .ofChar '[', closing := .ofChar ']' }

/-- Two lists of two atoms, in round and in square brackets. The first atom takes up two bytes in
one source and one byte in the other. -/
theorem parse_of_round_and_square_brackets :
    ("(λ b)" : Text).map Dialect.standard.classify =
        ("[a c]" : Text).map Dialect.square.classify ∧
      ∃ b b' p q, Utf8.encodeText "(λ b)" = .ok b ∧ Utf8.encodeText "[a c]" = .ok b' ∧
        (Cursor.ofBytes b).descend .standard = pure p ∧
        (Cursor.ofBytes b').descend .square = pure q ∧
        Parsed.Parallel .standard .square (Utf8.written "(λ b)") (Utf8.written "[a c]") p q := by
  have hclasses : ("(λ b)" : Text).map Dialect.standard.classify =
      ("[a c]" : Text).map Dialect.square.classify := by
    decide
  obtain ⟨⟨b, b', p, q, hb, hb', hp, hq, -, -, hparallel⟩, -, -⟩ :=
    parse_of_same_classes (by decide) (by decide) hclasses
  exact ⟨hclasses, b, b', p, q, hb, hb', hp, hq, hparallel⟩

end SexpReader
