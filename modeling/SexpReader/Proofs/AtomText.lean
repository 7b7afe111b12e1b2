import SexpReader.Proofs.Extent
import SexpReader.Proofs.Replacement

/-!
# The text of an atom

The end of an atom is found glyph by glyph, in the whole buffer. Its text is decoded afterwards,
from the slice alone and with fewer replacement characters. The slice has the same glyphs as the
buffer has there, so the text is thinned out of the characters that were stepped over. Nothing is
in it that is not a constituent.
-/

namespace SexpReader

/-- A text that an atom can have. -/
structure Dialect.IsAtomText (d : Dialect) (v : Text) : Prop where
  ne_nil : v ≠ []
  constituent : ∀ c ∈ v, d.classify c = .constituent

variable {d : Dialect} {b : Bytes} {root : Node} {v : Text} {bounds : Bounds}

/-- An atom that is parsed is the text of a slice in which all glyphs are constituents. -/
theorem exists_run_of_mem_preorder (h : parseBytes d b = .ok root)
    (hv : .atom v bounds ∈ root.preorder) :
    ∃ start stop run, bounds = .between start stop ∧ Utf8.Between b start stop run ∧ run ≠ [] ∧
      (∀ g ∈ run, d.isConstituent g = true) ∧
      v = Utf8.decodeLossy (Index.window b start stop) := by
  obtain ⟨start, stop, run, hrun, hb⟩ := exists_between_of_mem_preorder h hv
  have hstop := hb.stop_eq
  refine ⟨start, stop, run, ?_, hb, hrun.ne_nil, ?_, ?_⟩
  · rw [hstop]
    exact hrun.bounds
  · cases hrun with
    | atom hne hconstituent => exact hconstituent
  · rw [hb.window]
    cases hrun with
    | atom hne hconstituent => rfl

theorem Utf8.Between.thinned {start stop : Nat} {run : List Glyph}
    (hb : Utf8.Between b start stop run) :
    Utf8.Thinned (Utf8.decodeLossy (Index.window b start stop)) (run.map Glyph.char) := by
  have hthin := Utf8.thinned_decodeLossy (Index.window b start stop)
  rw [hb.glyphs_window] at hthin
  exact hthin

/-- What is read at the offset of a glyph between two boundaries is that glyph. -/
theorem Utf8.Between.glyphAt {start stop : Nat} {before after : List Glyph} {g : Glyph}
    (hb : Utf8.Between b start stop (before ++ g :: after)) (hlen : b.length ≤ Index.limit) :
    Utf8.glyphAt b (start + Glyph.size before : Nat) = .ok (g.char, g.bytes.length) := by
  obtain ⟨front, back, hglyphs, rfl, -⟩ := hb
  have hcut : Utf8.glyphs b = (front ++ before) ++ g :: (after ++ back) := by simpa using hglyphs
  apply Utf8.glyphAt_of_glyphs_drop hlen
  rw [← Glyph.size_append, Glyph.size, Utf8.drop_of_glyphs_eq hcut]
  exact (Utf8.glyphs_eq_append hcut).2.1

/-- A slice that is the form of a text gives back this text in either way. -/
theorem Utf8.Between.text_of_wellFormed {start stop : Nat} {run : List Glyph}
    (hb : Utf8.Between b start stop run) (hw : Utf8.WellFormed (Index.window b start stop)) :
    Utf8.decodeLossy (Index.window b start stop) = run.map Glyph.char ∧
      Utf8.encodeText (run.map Glyph.char) = .ok (Index.window b start stop) := by
  obtain ⟨t, ht⟩ := hw
  obtain ⟨hscalar, hencode⟩ := Utf8.encodeText_eq_ok_iff.1 ht
  have hchars : run.map Glyph.char = t := by
    rw [← hb.glyphs_window, ← hencode, Utf8.glyphs_flatMap_encode hscalar, Utf8.written,
      List.map_map]
    exact List.map_id t
  rw [hchars]
  refine ⟨?_, ht⟩
  rw [← hencode, Utf8.decodeLossy_flatMap_encode hscalar]

theorem isAtomText_of_mem_preorder (h : parseBytes d b = .ok root)
    (hv : .atom v bounds ∈ root.preorder) : d.IsAtomText v := by
  obtain ⟨start, stop, run, -, hb, hne, hrun, rfl⟩ := exists_run_of_mem_preorder h hv
  constructor
  · rw [ne_eq, hb.thinned.eq_nil_iff, List.map_eq_nil_iff]
    exact hne
  · intro c hc
    obtain ⟨g, hg, rfl⟩ := List.mem_map.1 (hb.thinned.subset hc)
    exact Dialect.isConstituent_iff.1 (hrun g hg)

/-- An atom that is parsed can be encoded again, whatever its bytes were. -/
theorem isSurrogate_of_mem_atom (h : parseBytes d b = .ok root)
    (hv : .atom v bounds ∈ root.preorder) : ∀ c ∈ v, c.isSurrogate = false := by
  obtain ⟨start, stop, run, -, hb, -, -, rfl⟩ := exists_run_of_mem_preorder h hv
  intro c hc
  obtain ⟨g, hg, rfl⟩ := List.mem_map.1 (hb.thinned.subset hc)
  rw [← hb.glyphs_window] at hg
  exact Utf8.isSurrogate_of_mem_glyphs hg

/-- The text of an atom is made of the characters that were stepped over to find its end. It is not
empty, nothing but replacement characters is left out, and nothing at all where the bytes are
well-formed; it holds no character with a special part. -/
theorem atom_text_of_run (h : parseBytes d b = .ok root) (hv : .atom v bounds ∈ root.preorder) :
    ∃ (start stop : Nat) (run : List Glyph), bounds = .between start stop ∧
      Utf8.Between b start stop run ∧
      (b.length ≤ Index.limit → ∀ before g after, run = before ++ g :: after →
        Utf8.glyphAt b (start + Glyph.size before : Nat) = .ok (g.char, g.bytes.length)) ∧
      v = Utf8.decodeLossy (Index.window b start stop) ∧ v ≠ [] ∧
      (v.filter fun c => c ≠ .replacement) =
        ((run.map Glyph.char).filter fun c => c ≠ .replacement) ∧
      v.length ≤ run.length ∧
      (Utf8.WellFormed (Index.window b start stop) →
        v = run.map Glyph.char ∧ Utf8.encodeText v = .ok (Index.window b start stop)) ∧
      ∀ c ∈ v, c ≠ d.newline ∧ c ≠ d.tab ∧ c ≠ d.space ∧ c ∉ d.extra ∧ c ≠ d.opening ∧
        c ≠ d.closing := by
  have htext := isAtomText_of_mem_preorder h hv
  obtain ⟨start, stop, run, hbounds, hb, -, -, rfl⟩ := exists_run_of_mem_preorder h hv
  refine ⟨start, stop, run, hbounds, hb, ?_, rfl, htext.ne_nil, hb.thinned.filter_eq, ?_, ?_, ?_⟩
  · rintro hlen before g after rfl
    exact hb.glyphAt hlen
  · have hlen := hb.thinned.length_le
    rw [List.length_map] at hlen
    exact hlen
  · intro hw
    obtain ⟨hchars, hencode⟩ := hb.text_of_wellFormed hw
    rw [hchars]
    exact ⟨rfl, hencode⟩
  · intro c hc
    exact Dialect.classify_eq_constituent_iff.1 (htext.constituent c hc)

/-- A character that breaks off at the end of an atom: two bytes and two glyphs, but one
replacement character. -/
theorem atom_text_of_broken_character :
    let b : Bytes := [0x28, 0x61, 0xE2, 0x82, 0x29]
    parseBytes .standard b = .ok (.list [.atom "a\ufffd" (.between 1 4)] (.between 0 5)) ∧
      ∃ start stop run, Bounds.between 1 4 = .between start stop ∧
        Utf8.Between b start stop run ∧
        (("a\ufffd" : Text).filter fun c => c ≠ .replacement) =
          ((run.map Glyph.char).filter fun c => c ≠ .replacement) := by
  intro b
  have h : parseBytes .standard b =
      .ok (.list [.atom "a\ufffd" (.between 1 4)] (.between 0 5)) := by rfl
  obtain ⟨start, stop, run, hbounds, hb, -, -, -, hfilter, -⟩ :=
    atom_text_of_run h (.tail _ (.head _))
  exact ⟨h, start, stop, run, hbounds, hb, hfilter⟩

end SexpReader
