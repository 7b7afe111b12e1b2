import SexpReader.Proofs.Extension
import SexpReader.Proofs.Extent

/-!
# Lists that break off

A source that is a list can be cut at any byte. In front of the list nothing but blanks is left,
and what is missing is an expression. Behind its last bracket nothing but blanks is lost, and the
list is read as before. In between, what is missing is a closing bracket.

The last is shown from the outline, which can be computed byte by byte, so it does not matter
whether the cut falls between two characters. Behind the opening bracket no outline is that of a
blank source again. An outline that has stopped stays stopped, and a complete expression outside
of all lists is followed by no bracket; but the list goes on to be read, up to its last bracket. So
lists are open where the cut is.
-/

namespace SexpReader

namespace Outline

variable {d : Dialect} {o : Outline}

theorem afterBytes_of_blank (n : Nat) {bs : Bytes}
    (h : ∀ x ∈ bs, (d.byteClass x).isBlank = true) : (seeking n).afterBytes d bs = .seeking n := by
  induction bs with
  | nil => rfl
  | cons x bs ih =>
      change ((seeking n).step (d.byteClass x)).afterBytes d bs = _
      rw [seeking_step_of_isBlank (h x List.mem_cons_self)]
      exact ih fun y hy => h y (List.mem_cons_of_mem x hy)

/-- Only blanks leave a source blank. -/
theorem step_ne_seeking_zero (h : o ≠ .seeking 0) (k : CharClass) : o.step k ≠ .seeking 0 := by
  cases o with
  | stopped => nofun
  | seeking n =>
      cases n with
      | zero => exact (h rfl).elim
      | succ n => cases k <;> nofun
  | inAtom n | complete n => cases k <;> cases n <;> nofun

theorem afterBytes_ne_seeking_zero (h : o ≠ .seeking 0) (bs : Bytes) :
    o.afterBytes d bs ≠ .seeking 0 := by
  induction bs using List.reverseRecOn with
  | nil => exact h
  | append_singleton bs x ih =>
      rw [afterBytes_concat]
      exact step_ne_seeking_zero ih _

/-- A complete expression outside of all lists may grow or be followed by blanks, and anything else
is too much. -/
theorem IsDone.step (h : o.IsDone) (k : CharClass) : (o.step k).IsDone ∨ o.step k = .stopped := by
  rcases h with rfl | rfl
  · cases k with
    | newline | blank => exact .inl (.inr rfl)
    | constituent => exact .inl (.inl rfl)
    | opening | closing => exact .inr rfl
  · cases k with
    | newline | blank => exact .inl (.inr rfl)
    | opening | closing | constituent => exact .inr rfl

theorem IsDone.step_closing (h : o.IsDone) : o.step .closing = .stopped := by
  rcases h with rfl | rfl <;> rfl

theorem IsDone.afterBytes (h : o.IsDone) (bs : Bytes) :
    (o.afterBytes d bs).IsDone ∨ o.afterBytes d bs = .stopped := by
  induction bs using List.reverseRecOn with
  | nil => exact .inl h
  | append_singleton bs x ih =>
      rw [afterBytes_concat]
      rcases ih with hdone | hstop
      · exact hdone.step _
      · rw [hstop]
        exact .inr rfl

/-- Behind a complete expression outside of all lists, a closing bracket is too much. -/
theorem IsDone.afterBytes_of_mem (hd : d.IsPlain) (h : o.IsDone) {bs : Bytes} (hbs : 0x29 ∈ bs) :
    o.afterBytes d bs = .stopped := by
  obtain ⟨before, after, rfl⟩ := List.append_of_mem hbs
  have hstep : (o.afterBytes d before).step (d.byteClass 0x29) = .stopped := by
    rw [hd.byteClass_closing.2 rfl]
    rcases h.afterBytes before with hdone | hstop
    · exact hdone.step_closing
    · rw [hstop]
      rfl
  rw [List.append_cons, afterBytes_append, afterBytes_concat, hstep, stopped_afterBytes]

/-- If more bytes, a closing bracket among them, lead to a complete expression, then lists are
open. -/
theorem exists_depth_of_isDone (hd : d.IsPlain) (ho : o ≠ .seeking 0) {bs : Bytes}
    (hbs : 0x29 ∈ bs) (h : (o.afterBytes d bs).IsDone) : ∃ n, o.depth? = some (n + 1) := by
  have hne : o.afterBytes d bs ≠ .stopped := by
    rcases h with h | h <;> rw [h] <;> nofun
  rcases o.four_cases with rfl | hdone | hseek | hdepth
  · exact (hne (stopped_afterBytes bs)).elim
  · exact (hne (hdone.afterBytes_of_mem hd hbs)).elim
  · exact (ho hseek).elim
  · exact hdepth

end Outline

namespace Dialect

variable {d : Dialect} {b : Bytes} {g : Glyph}

/-- Everything but a constituent is a single byte, and the class of the byte is its own. -/
theorem IsPlain.exists_byte (hd : d.IsPlain) (hg : g ∈ Utf8.glyphs b)
    (hk : d.classify g.char ≠ .constituent) :
    ∃ x, g.bytes = [x] ∧ d.byteClass x = d.classify g.char := by
  obtain ⟨lead, rest, rfl⟩ := Utf8.exists_glyph_of_mem_glyphs hg
  by_cases hlead : lead.toNat < 0x80
  · rw [Utf8.glyph_of_lt hlead]
    exact ⟨lead, rfl, if_pos hlead⟩
  · exact (hk (hd.wide _ (Utf8.glyph_of_le (Nat.le_of_not_lt hlead) rest).1)).elim

/-- Blanks can be cut like their bytes. -/
theorem IsPlain.take_flatMap_bytes (hd : d.IsPlain) {blanks : List Glyph}
    (hsub : ∀ g ∈ blanks, g ∈ Utf8.glyphs b) (h : ∀ g ∈ blanks, d.isBlank g = true) (k : Nat) :
    (blanks.flatMap Glyph.bytes).take k = (blanks.take k).flatMap Glyph.bytes := by
  induction blanks generalizing k with
  | nil => simp
  | cons g blanks ih =>
      obtain ⟨x, hx, -⟩ := hd.exists_byte (hsub g List.mem_cons_self)
        (ne_constituent_of_isBlank (h g List.mem_cons_self))
      cases k with
      | zero => rfl
      | succ k =>
          rw [List.flatMap_cons, hx, List.singleton_append, List.take_succ_cons,
            ih (fun y hy => hsub y (List.mem_cons_of_mem g hy))
              (fun y hy => h y (List.mem_cons_of_mem g hy)),
            List.take_succ_cons, List.flatMap_cons, hx, List.singleton_append]

theorem IsPlain.isBlank_byteClass (hd : d.IsPlain) {blanks : List Glyph}
    (hsub : ∀ g ∈ blanks, g ∈ Utf8.glyphs b) (h : ∀ g ∈ blanks, d.isBlank g = true) :
    ∀ x ∈ blanks.flatMap Glyph.bytes, (d.byteClass x).isBlank = true := by
  intro x hx
  obtain ⟨g, hg, hx⟩ := List.mem_flatMap.1 hx
  obtain ⟨y, hy, hclass⟩ := hd.exists_byte (hsub g hg) (ne_constituent_of_isBlank (h g hg))
  rw [hy, List.mem_singleton] at hx
  rw [hx, hclass]
  exact h g hg

end Dialect

variable {d : Dialect} {b : Bytes} {xs : List Node} {bounds : Bounds}

/-- The bytes of a source that is a list. -/
theorem exists_bytes_of_list (hd : d.IsPlain) (h : parseBytes d b = .ok (.list xs bounds)) :
    ∃ blanks inner tail : Bytes, b = blanks ++ (0x28 :: inner ++ [0x29]) ++ tail ∧
      bounds = .between blanks.length (blanks.length + (0x28 :: inner ++ [0x29]).length) ∧
      (∀ x ∈ blanks, (d.byteClass x).isBlank = true) ∧
      ∀ k, parseBytes d (blanks ++ (0x28 :: inner ++ [0x29]) ++ tail.take k) =
        .ok (.list xs bounds) := by
  obtain ⟨blanks, gs, tail, hsplit, hblanks, hroot, htail⟩ := spells_of_parseBytes h
  have hmem {g : Glyph} (hg : g ∈ blanks ∨ g ∈ gs ∨ g ∈ tail) : g ∈ Utf8.glyphs b := by
    rw [hsplit]
    simpa [or_assoc] using hg
  obtain ⟨inner, hgs⟩ : ∃ inner, gs.flatMap Glyph.bytes = 0x28 :: inner ++ [0x29] := by
    cases hroot with
    | @list _ first last blanks' inner _ hfirst _ _ hlast =>
        obtain ⟨x, hx, hxclass⟩ := hd.exists_byte (hmem (g := first) (by simp))
          (by rw [hfirst]; decide)
        obtain ⟨y, hy, hyclass⟩ := hd.exists_byte (hmem (g := last) (by simp))
          (by rw [hlast]; decide)
        refine ⟨(blanks' ++ inner).flatMap Glyph.bytes, ?_⟩
        rw [List.flatMap_append, List.flatMap_cons, hx, List.flatMap_singleton, hy,
          hd.byteClass_opening.1 (hxclass.trans hfirst),
          hd.byteClass_closing.1 (hyclass.trans hlast), List.singleton_append]
  have hbytes (k : Nat) : blanks.flatMap Glyph.bytes ++ (0x28 :: inner ++ [0x29]) ++
      (tail.flatMap Glyph.bytes).take k = (blanks ++ gs ++ tail.take k).flatMap Glyph.bytes := by
    rw [List.flatMap_append, List.flatMap_append, hgs,
      hd.take_flatMap_bytes (fun g hg => hmem (.inr (.inr hg))) htail]
  refine ⟨blanks.flatMap Glyph.bytes, inner, tail.flatMap Glyph.bytes, ?_, ?_,
    hd.isBlank_byteClass (fun g hg => hmem (.inl hg)) hblanks, ?_⟩
  · rw [← hgs, ← List.flatMap_append, ← List.flatMap_append, ← hsplit, Utf8.flatMap_bytes_glyphs]
  · rw [← hgs]
    exact hroot.bounds
  · intro k
    have hcut : Utf8.glyphs b = blanks ++ gs ++ tail.take k ++ tail.drop k := by
      rw [List.append_assoc, List.take_append_drop, hsplit]
    have hstart : d.Spells (Mark.origin.position + Glyph.size blanks) gs (.list xs bounds) := by
      rw [show Mark.origin.position = 0 from rfl, Nat.zero_add]
      exact hroot
    rw [hbytes, parseBytes_eq, (Utf8.glyphs_eq_append hcut).1]
    exact Reader.whole_of_spells hblanks hstart
      (fun g hg => htail g (List.mem_of_mem_take hg)) false

/-- In front of the list. -/
theorem failsWith_of_blank (hd : d.IsPlain) (h : ∀ x ∈ b, (d.byteClass x).isBlank = true) :
    (parseBytes d b).FailsWith .endOfInput "atom or list" := by
  have hseek : (Outline.seeking 0).after d (Utf8.glyphs b) = .seeking 0 := by
    rw [Outline.after_glyphs hd, Outline.afterBytes_of_blank 0 h]
  exact ⟨_, _, Reader.whole_of_seeking hseek .origin⟩

/-- Between the brackets of a list. -/
theorem failsWith_of_cut (hd : d.IsPlain) {blanks front back : Bytes} {n : Node}
    (h : parseBytes d (blanks ++ 0x28 :: front ++ back) = .ok n)
    (hblanks : ∀ x ∈ blanks, (d.byteClass x).isBlank = true) (hback : 0x29 ∈ back) :
    (parseBytes d (blanks ++ 0x28 :: front)).FailsWith .endOfInput d.closingName := by
  have hopen : (Outline.seeking 0).afterBytes d (blanks ++ 0x28 :: front) =
      (Outline.seeking 1).afterBytes d front := by
    rw [List.append_cons, Outline.afterBytes_append, Outline.afterBytes_concat,
      Outline.afterBytes_of_blank 0 hblanks, hd.byteClass_opening.2 rfl]
    rfl
  have hne : (Outline.seeking 0).afterBytes d (blanks ++ 0x28 :: front) ≠ .seeking 0 := by
    have hone : Outline.seeking 1 ≠ .seeking 0 := nofun
    rw [hopen]
    exact Outline.afterBytes_ne_seeking_zero hone front
  have hdone := (parseBytes_ok_iff_isDone hd _).1 ⟨n, h⟩
  rw [Outline.afterBytes_append] at hdone
  obtain ⟨m, hdepth⟩ := Outline.exists_depth_of_isDone hd hne hback hdone
  rw [← Outline.after_glyphs hd] at hdepth
  exact ⟨_, _, Reader.whole_of_depth hdepth .origin⟩

/-- A list that breaks off is never taken for an expression, and it is never a character that is
wrong with it. Only what comes after the list may be cut off; it is read as before then. -/
theorem list_cut_off (hd : d = .standard ∨ d = .strict)
    (h : parseBytes d b = .ok (.list xs bounds)) :
    ∃ start stop : Nat, bounds = .between start stop ∧ ∀ n,
      (n ≤ start → (parseBytes d (b.take n)).FailsWith .endOfInput "atom or list") ∧
      (start < n → n < stop → (parseBytes d (b.take n)).FailsWith .endOfInput "')'") ∧
      (stop ≤ n → parseBytes d (b.take n) = .ok (.list xs bounds)) := by
  obtain ⟨hplain, hname⟩ : d.IsPlain ∧ d.closingName = "')'" := by
    rcases hd with rfl | rfl
    · exact ⟨Dialect.isPlain_standard, by decide⟩
    · exact ⟨Dialect.isPlain_strict, by decide⟩
  obtain ⟨blanks, inner, tail, hb, hbounds, hblanks, hok⟩ := exists_bytes_of_list hplain h
  refine ⟨_, _, hbounds, fun n => ⟨?_, ?_, ?_⟩⟩
  · intro hn
    rw [hb, List.append_assoc, List.take_append_of_le_length hn]
    exact failsWith_of_blank hplain fun x hx => hblanks x (List.mem_of_mem_take hx)
  · intro hstart hstop
    rw [List.length_append, List.length_cons, List.length_singleton] at hstop
    obtain ⟨k, rfl⟩ : ∃ k, n = blanks.length + (k + 1) := ⟨n - blanks.length - 1, by omega⟩
    have htake : b.take (blanks.length + (k + 1)) = blanks ++ 0x28 :: inner.take k := by
      rw [hb, List.append_assoc, List.take_length_add_append, List.cons_append, List.cons_append,
        List.take_succ_cons, List.append_assoc, List.take_append_of_le_length (by omega)]
    have hrest : b = blanks ++ 0x28 :: inner.take k ++ (inner.drop k ++ 0x29 :: tail) := by
      simp only [hb, List.append_assoc, List.cons_append, List.nil_append]
      rw [← List.append_assoc (inner.take k), List.take_append_drop]
    rw [htake, ← hname]
    rw [hrest] at h
    exact failsWith_of_cut hplain h hblanks (by simp)
  · intro hn
    rw [hb, List.take_append, List.take_of_length_le (by simpa using hn)]
    exact hok _

/-- A nested list. The cut falls into a character, behind a list that is closed. -/
theorem list_cut_off_in_character :
    let b : Bytes := [0x20, 0x28, 0x28, 0x29, 0xC3, 0xA9, 0x29, 0x0A]
    parseBytes .strict b =
        .ok (.list [.list [] (.between 2 4), .atom "\u00e9" (.between 4 6)] (.between 1 7)) ∧
      (parseBytes .strict (b.take 5)).FailsWith .endOfInput "')'" := by
  intro b
  have h : parseBytes .strict b =
      .ok (.list [.list [] (.between 2 4), .atom "\u00e9" (.between 4 6)] (.between 1 7)) := by rfl
  obtain ⟨start, stop, hbounds, hcut⟩ := list_cut_off (.inr rfl) h
  cases hbounds
  exact ⟨h, (hcut 5).2.1 (by decide) (by decide)⟩

end SexpReader
