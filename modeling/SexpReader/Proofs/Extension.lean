import SexpReader.Proofs.Classification
import SexpReader.Proofs.Place

/-!
# What more input can do

Appending bytes to a source may change its last glyphs, since the bytes of a character that broke
off can turn out to begin a whole one. It does not change the outline of the reading if all special
characters are single bytes: a byte from `0x80` on is a constituent or part of one, whatever it
stands next to, and an atom is an atom whether its constituents are counted as bytes or as glyphs.
So the outline can be computed byte by byte, and then bytes can be appended.

From each outline but the one that has stopped there is a way to complete the source, and from that
one there is none. This is why the sort of a failure tells whether more input could help.
-/

namespace SexpReader

namespace Dialect

variable {d : Dialect}

/-- The class of a byte on its own. -/
def byteClass (d : Dialect) (b : UInt8) : CharClass :=
  if b.toNat < 0x80 then d.classify (.ofByte b) else .constituent

/-- Round brackets enclose lists, letters stand in atoms, and so does whatever takes more than one
byte. -/
structure IsPlain (d : Dialect) : Prop where
  opening_eq : d.opening = .ofChar '('
  closing_eq : d.closing = .ofChar ')'
  opening : d.classify d.opening = .opening
  closing : d.classify d.closing = .closing
  letter : d.byteClass 0x61 = .constituent
  wide : ∀ c : CodePoint, 0x80 ≤ c.val → d.classify c = .constituent

theorem ne_ofChar_of_wide {c : CodePoint} (hc : 0x80 ≤ c.val) {x : Char} (hx : x.toNat < 0x80) :
    c ≠ .ofChar x := by
  intro h
  rw [h, CodePoint.val_ofChar] at hc
  omega

theorem isPlain_standard : standard.IsPlain := by
  refine ⟨rfl, rfl, rfl, rfl, rfl, ?_⟩
  intro c hc
  simp [classify, standard, ne_ofChar_of_wide hc]

theorem isPlain_strict : strict.IsPlain := by
  refine ⟨rfl, rfl, rfl, rfl, rfl, ?_⟩
  intro c hc
  simp [classify, strict, standard, ne_ofChar_of_wide hc]

theorem eq_of_ofByte_eq {b x : UInt8} {c : Char} (h : CodePoint.ofByte b = .ofChar c)
    (hx : x.toNat = c.toNat) : b = x := by
  rw [← UInt8.toNat_inj, hx]
  exact congrArg CodePoint.val h

theorem IsPlain.byteClass_opening (hd : d.IsPlain) {b : UInt8} :
    d.byteClass b = .opening ↔ b = 0x28 := by
  constructor
  · intro h
    unfold byteClass at h
    split at h
    · have hb := eq_opening_of_classify h
      rw [hd.opening_eq] at hb
      exact eq_of_ofByte_eq hb rfl
    · cases h
  · rintro rfl
    have h := hd.opening
    rw [hd.opening_eq] at h
    exact h

theorem IsPlain.byteClass_closing (hd : d.IsPlain) {b : UInt8} :
    d.byteClass b = .closing ↔ b = 0x29 := by
  constructor
  · intro h
    unfold byteClass at h
    split at h
    · have hb := eq_closing_of_classify h
      rw [hd.closing_eq] at hb
      exact eq_of_ofByte_eq hb rfl
    · cases h
  · rintro rfl
    have h := hd.closing
    rw [hd.closing_eq] at h
    exact h

end Dialect

namespace Outline

variable {d : Dialect}

/-- The outline after bytes, each taken on its own. -/
def afterBytes (d : Dialect) (o : Outline) (bs : Bytes) : Outline :=
  bs.foldl (fun o b => o.step (d.byteClass b)) o

theorem afterBytes_append (d : Dialect) (o : Outline) (bs cs : Bytes) :
    o.afterBytes d (bs ++ cs) = (o.afterBytes d bs).afterBytes d cs :=
  List.foldl_append

theorem afterBytes_concat (d : Dialect) (o : Outline) (bs : Bytes) (b : UInt8) :
    o.afterBytes d (bs ++ [b]) = (o.afterBytes d bs).step (d.byteClass b) :=
  afterBytes_append d o bs [b]

@[simp] theorem stopped_afterBytes (bs : Bytes) : stopped.afterBytes d bs = .stopped := by
  induction bs with
  | nil => rfl
  | cons b bs ih => exact ih

/-- After a constituent, another one makes no difference. -/
theorem step_constituent_twice (o : Outline) :
    (o.step .constituent).step .constituent = o.step .constituent := by
  cases o with
  | seeking n | inAtom n | stopped => rfl
  | complete n => cases n <;> rfl

theorem afterBytes_of_wide {bs : Bytes} (hne : bs ≠ []) (h : ∀ b ∈ bs, 0x80 ≤ b.toNat)
    (o : Outline) : o.afterBytes d bs = o.step .constituent := by
  induction bs using List.reverseRecOn with
  | nil => exact (hne rfl).elim
  | append_singleton bs b ih =>
      have hb : d.byteClass b = .constituent := by
        have hwide := h b (by simp)
        unfold Dialect.byteClass
        rw [if_neg (by omega)]
      rw [afterBytes_concat, hb]
      by_cases hnil : bs = []
      · rw [hnil]
        rfl
      · rw [ih hnil fun x hx => h x (List.mem_append_left [b] hx), step_constituent_twice]

/-- A glyph does to the outline what its bytes do. -/
theorem step_glyph (hd : d.IsPlain) (lead : UInt8) (rest : Bytes) (o : Outline) :
    o.step (d.classify (Utf8.glyph lead rest).char) =
      o.afterBytes d (Utf8.glyph lead rest).bytes := by
  by_cases hlead : lead.toNat < 0x80
  · rw [Utf8.glyph_of_lt hlead]
    have hclass : d.byteClass lead = d.classify (.ofByte lead) := if_pos hlead
    change o.step (d.classify (.ofByte lead)) = o.step (d.byteClass lead)
    rw [hclass]
  · obtain ⟨hchar, hbytes⟩ := Utf8.glyph_of_le (Nat.le_of_not_lt hlead) rest
    have hne : (Utf8.glyph lead rest).bytes ≠ [] :=
      List.ne_nil_of_length_pos (Utf8.length_glyph_pos lead rest)
    rw [hd.wide _ hchar, afterBytes_of_wide hne hbytes]

/-- The outline of a source can be computed byte by byte. -/
theorem after_glyphs (hd : d.IsPlain) (b : Bytes) (o : Outline) :
    o.after d (Utf8.glyphs b) = o.afterBytes d b := by
  induction h : b.length using Nat.strongRecOn generalizing b o with
  | ind n ih =>
      cases b with
      | nil => rfl
      | cons lead rest =>
          have hlt : (rest.drop ((Utf8.glyph lead rest).bytes.length - 1)).length < n := by
            rw [← h, List.length_drop, List.length_cons]
            omega
          rw [Utf8.glyphs_cons, after_cons, step_glyph hd lead rest o, ih _ hlt _ _ rfl,
            ← afterBytes_append, Utf8.glyph_bytes_append_drop]

/-! ## Completing a source -/

/-- A step of a live outline to a live outline counts brackets. -/
theorem depth?_of_step {o : Outline} {k : CharClass} {m : Nat} (h : (o.step k).depth? = some m) :
    ∃ n, o.depth? = some n ∧
      m + (if k = .closing then 1 else 0) = n + (if k = .opening then 1 else 0) := by
  cases o with
  | stopped => cases h
  | seeking n | inAtom n | complete n =>
      refine ⟨n, rfl, ?_⟩
      cases k <;> cases n <;> simp [step, depth?] at h ⊢ <;> omega

/-- The number of lists open at the end of a source. -/
theorem depth?_afterBytes (hd : d.IsPlain) {b : Bytes} {m : Nat}
    (h : ((seeking 0).afterBytes d b).depth? = some m) :
    m + b.count 0x29 = b.count 0x28 := by
  induction b using List.reverseRecOn generalizing m with
  | nil =>
      cases h
      rfl
  | append_singleton b x ih =>
      rw [afterBytes_concat] at h
      obtain ⟨n, hn, hcount⟩ := depth?_of_step h
      have hb := ih hn
      have hopening : [x].count 0x28 = if d.byteClass x = .opening then 1 else 0 := by
        rw [List.count_singleton]
        by_cases hx : d.byteClass x = .opening
        · rw [if_pos hx, hd.byteClass_opening.1 hx]
          rfl
        · rw [if_neg hx, if_neg]
          intro heq
          exact hx (hd.byteClass_opening.2 (eq_of_beq heq))
      have hclosing : [x].count 0x29 = if d.byteClass x = .closing then 1 else 0 := by
        rw [List.count_singleton]
        by_cases hx : d.byteClass x = .closing
        · rw [if_pos hx, hd.byteClass_closing.1 hx]
          rfl
        · rw [if_neg hx, if_neg]
          intro heq
          exact hx (hd.byteClass_closing.2 (eq_of_beq heq))
      rw [List.count_append, List.count_append, hopening, hclosing]
      omega

theorem not_isDone_of_depth {o : Outline} {n : Nat} (h : o.depth? = some (n + 1)) :
    ¬ o.IsDone := by
  rintro (rfl | rfl) <;> cases h

theorem step_closing_of_depth {o : Outline} {n : Nat} (h : o.depth? = some (n + 1)) :
    o.step .closing = .complete n := by
  cases o with
  | stopped => cases h
  | seeking m | inAtom m | complete m =>
      cases h
      rfl

/-- Closing brackets close the open lists one after the other, and the next one is too many. -/
theorem afterBytes_replicate (hd : d.IsPlain) {o : Outline} {n : Nat}
    (h : o.depth? = some (n + 1)) (j : Nat) :
    (o.afterBytes d (List.replicate j 0x29)).IsDone ↔ j = n + 1 := by
  induction n generalizing o j with
  | zero =>
      cases j with
      | zero => exact iff_of_false (not_isDone_of_depth h) (by omega)
      | succ j =>
          have hstep : o.afterBytes d (List.replicate (j + 1) 0x29) =
              (complete 0).afterBytes d (List.replicate j 0x29) := by
            rw [← step_closing_of_depth h, ← hd.byteClass_closing.2 rfl]
            rfl
          rw [hstep]
          cases j with
          | zero => exact iff_of_true (Or.inr rfl) rfl
          | succ j =>
              have hstop : (complete 0).afterBytes d (List.replicate (j + 1) 0x29) =
                  stopped.afterBytes d (List.replicate j 0x29) := by
                rw [show stopped = (complete 0).step .closing from rfl,
                  ← hd.byteClass_closing.2 rfl]
                rfl
              rw [hstop, stopped_afterBytes]
              exact iff_of_false (by rintro (h | h) <;> cases h) (by omega)
  | succ n ih =>
      cases j with
      | zero => exact iff_of_false (not_isDone_of_depth h) (by omega)
      | succ j =>
          have hstep : o.afterBytes d (List.replicate (j + 1) 0x29) =
              (complete (n + 1)).afterBytes d (List.replicate j 0x29) := by
            rw [← step_closing_of_depth h, ← hd.byteClass_closing.2 rfl]
            rfl
          rw [hstep, ih rfl j]
          omega

/-- From every outline that has not stopped, some bytes lead to a complete expression. -/
theorem exists_completion (hd : d.IsPlain) {o : Outline} (h : o ≠ .stopped) :
    ∃ s, (o.afterBytes d s).IsDone := by
  have hclose {n : Nat} (ho : o.depth? = some (n + 1)) : ∃ s, (o.afterBytes d s).IsDone :=
    ⟨List.replicate (n + 1) 0x29, (afterBytes_replicate hd ho (n + 1)).2 rfl⟩
  cases o with
  | stopped => exact (h rfl).elim
  | seeking n =>
      cases n with
      | zero =>
          refine ⟨[0x61], Or.inl ?_⟩
          change (seeking 0).step (d.byteClass 0x61) = .inAtom 0
          rw [hd.letter]
          rfl
      | succ n => exact hclose rfl
  | inAtom n =>
      cases n with
      | zero => exact ⟨[], Or.inl rfl⟩
      | succ n => exact hclose rfl
  | complete n =>
      cases n with
      | zero => exact ⟨[], Or.inr rfl⟩
      | succ n => exact hclose rfl

end Outline

/-! ## Failures and completions -/

/-- Some bytes can be appended so that the source becomes an expression. -/
def Dialect.Completable (d : Dialect) (b : Bytes) : Prop :=
  ∃ s n, parseBytes d (b ++ s) = .ok n

variable {d : Dialect} {b : Bytes}

theorem parseBytes_ok_iff_isDone (hd : d.IsPlain) (b : Bytes) :
    (∃ n, parseBytes d b = .ok n) ↔ ((Outline.seeking 0).afterBytes d b).IsDone := by
  rw [← Outline.after_glyphs hd]
  constructor
  · rintro ⟨n, hn⟩
    exact Reader.isDone_of_whole hn
  · intro h
    exact Reader.whole_of_isDone h .origin

theorem completable_iff (hd : d.IsPlain) (b : Bytes) :
    d.Completable b ↔ (Outline.seeking 0).afterBytes d b ≠ .stopped := by
  constructor
  · rintro ⟨s, hs⟩ hstop
    have hdone := (parseBytes_ok_iff_isDone hd _).1 hs
    rw [Outline.afterBytes_append, hstop, Outline.stopped_afterBytes] at hdone
    rcases hdone with h | h <;> cases h
  · intro h
    obtain ⟨s, hs⟩ := Outline.exists_completion hd h
    rw [← Outline.afterBytes_append] at hs
    exact ⟨s, (parseBytes_ok_iff_isDone hd _).2 hs⟩

/-- A failure for want of input comes with a completion. -/
theorem completable_of_endOfInput (hd : d.IsPlain) {f : Failure} (hf : parseBytes d b = .error f)
    (hcause : f.cause = .endOfInput) : d.Completable b := by
  rw [parseBytes_eq] at hf
  rw [completable_iff hd, ← Outline.after_glyphs hd]
  rcases Reader.failure_cases hf with ⟨before, g, after, -, -, -, -, rfl⟩ | ⟨ho, -⟩ | ⟨n, ho, -⟩
  · cases hcause
  · rw [ho]
    nofun
  · intro hs
    rw [hs] at ho
    cases ho

/-- Where lists are open, closing them is a completion, and it takes as many brackets as there are
open lists. -/
theorem closings_of_failure (hd : d.IsPlain) {f : Failure} (hf : parseBytes d b = .error f)
    (hexpected : f.expected = d.closingName) :
    ∃ k, 1 ≤ k ∧ k + b.count 0x29 = b.count 0x28 ∧
      ∀ j, (∃ n, parseBytes d (b ++ List.replicate j 0x29) = .ok n) ↔ j = k := by
  obtain ⟨-, hexpression, hend⟩ := d.closingName_ne
  rw [parseBytes_eq] at hf
  rcases Reader.failure_cases hf with
    ⟨before, g, after, -, -, -, -, rfl⟩ | ⟨-, rfl⟩ | ⟨n, ho, rfl⟩
  · exact (hend hexpected.symm).elim
  · exact (hexpression hexpected.symm).elim
  · rw [Outline.after_glyphs hd] at ho
    refine ⟨n + 1, Nat.le_add_left 1 n, Outline.depth?_afterBytes hd ho, ?_⟩
    intro j
    rw [parseBytes_ok_iff_isDone hd, Outline.afterBytes_append]
    exact Outline.afterBytes_replicate hd ho j

/-- A character that was not expected is the first that rules out every completion. -/
theorem offender_of_failure (hd : d.IsPlain) {f : Failure} (hf : parseBytes d b = .error f)
    {found : Text} (hcause : f.cause = .unexpected found) :
    let cursor := ((Cursor.ofBytes b).parse d false).cursor
    let p := cursor.mark.position
    ∃ w, cursor.look (.kind .char) = .ok ⟨.text found, w, 1⟩ ∧
      (b.length ≤ Index.limit → ∃ c, found = [c] ∧ Utf8.glyphAt b p = .ok (c, w)) ∧
      ¬ d.Completable (b.take (p + w)) ∧ d.Completable (b.take p) := by
  intro cursor p
  rw [parseBytes_eq] at hf
  rcases Reader.failure_cases hf with
    ⟨before, g, after, hgs, hlive, hstop, hmark, rfl⟩ | ⟨-, rfl⟩ | ⟨n, -, rfl⟩
  · cases hcause
    have hcursor : cursor = ⟨b, Mark.origin.after d before⟩ := congrArg (Cursor.mk b) hmark
    have hp : p = (Mark.origin.after d before).position := congrArg (·.mark.position) hcursor
    have hnext : p + g.bytes.length = (Mark.origin.after d (before ++ [g])).position := by
      rw [hp, Mark.position_origin_after, Mark.position_origin_after, List.flatMap_append,
        List.length_append, List.flatMap_singleton]
    have hgs' : Utf8.glyphs b = before ++ [g] ++ after := by
      rw [hgs, List.append_assoc]
      rfl
    have hfaces := Cursor.faces_after hgs d
    rw [← hcursor] at hfaces
    refine ⟨g.bytes.length, hfaces.look, fun hlen => ⟨g.char, rfl, hfaces.glyphAt hlen⟩,
      ?_, ?_⟩
    · rw [completable_iff hd, ← Outline.after_glyphs hd, hnext, Utf8.glyphs_take_after hgs',
        Outline.after_concat, hstop]
      exact fun h => h rfl
    · rw [completable_iff hd, ← Outline.after_glyphs hd, hp, Utf8.glyphs_take_after hgs]
      exact hlive
  · cases hcause
  · cases hcause

theorem not_completable_of_unexpected (hd : d.IsPlain) {f : Failure}
    (hf : parseBytes d b = .error f) {found : Text} (hcause : f.cause = .unexpected found) :
    ¬ d.Completable b := by
  rintro ⟨s, hs⟩
  obtain ⟨w, -, -, hnone, -⟩ := offender_of_failure hd hf hcause
  apply hnone
  rw [← List.take_append_drop _ b, List.append_assoc] at hs
  exact ⟨_, hs⟩

/-- The sort of a failure tells whether more input could help. If lists are open, there is exactly
one number of closing brackets that helps, the number of open lists; and if a character was not
expected, nothing helps that comes after it, while something would have helped in its place. -/
theorem failure_tells_completable (hd : d = .standard ∨ d = .strict) {f : Failure}
    (hf : parseBytes d b = .error f) :
    (f.cause = .endOfInput ↔ ∃ s n, parseBytes d (b ++ s) = .ok n) ∧
    ((∃ found, f.cause = .unexpected found) ↔ ∀ s n, parseBytes d (b ++ s) ≠ .ok n) ∧
    (f.cause = .endOfInput → f.expected = "')'" →
      ∃ k, 1 ≤ k ∧ k + b.count 0x29 = b.count 0x28 ∧
        ∀ j, (∃ n, parseBytes d (b ++ List.replicate j 0x29) = .ok n) ↔ j = k) ∧
    ∀ found, f.cause = .unexpected found →
      let cursor := ((Cursor.ofBytes b).parse d false).cursor
      let p := cursor.mark.position
      ∃ w, cursor.look (.kind .char) = .ok ⟨.text found, w, 1⟩ ∧
        (b.length ≤ Index.limit → ∃ c, found = [c] ∧ Utf8.glyphAt b p = .ok (c, w)) ∧
        (∀ s n, parseBytes d (b.take (p + w) ++ s) ≠ .ok n) ∧
        ∃ s n, parseBytes d (b.take p ++ s) = .ok n := by
  obtain ⟨hplain, hname⟩ : d.IsPlain ∧ d.closingName = "')'" := by
    rcases hd with rfl | rfl
    · exact ⟨Dialect.isPlain_standard, by decide⟩
    · exact ⟨Dialect.isPlain_strict, by decide⟩
  have hnone {c : Bytes} (h : ¬ d.Completable c) (s : Bytes) (n : Node) :
      parseBytes d (c ++ s) ≠ .ok n :=
    fun hn => h ⟨s, n, hn⟩
  refine ⟨⟨completable_of_endOfInput hplain hf, ?_⟩, ⟨?_, ?_⟩, ?_, ?_⟩
  · intro h
    cases hcause : f.cause with
    | endOfInput => rfl
    | unexpected found => exact (not_completable_of_unexpected hplain hf hcause h).elim
  · rintro ⟨found, hcause⟩
    exact hnone (not_completable_of_unexpected hplain hf hcause)
  · intro h
    cases hcause : f.cause with
    | endOfInput =>
        obtain ⟨s, n, hn⟩ := completable_of_endOfInput hplain hf hcause
        exact (h s n hn).elim
    | unexpected found => exact ⟨found, rfl⟩
  · intro _ hexpected
    exact closings_of_failure hplain hf (hexpected.trans hname.symm)
  · intro found hcause
    obtain ⟨w, hlook, hat, hstop, hlive⟩ := offender_of_failure hplain hf hcause
    exact ⟨w, hlook, hat, hnone hstop, hlive⟩

/-- A list that breaks off in the middle of a character can still be completed. -/
theorem completable_of_broken_list :
    parseBytes .strict [0x28, 0xC3] = .error ⟨.endOfInput, "')'", 1, 3⟩ ∧
      ∃ s n, parseBytes .strict ([0x28, 0xC3] ++ s) = .ok n :=
  have h : parseBytes .strict [0x28, 0xC3] = .error ⟨.endOfInput, "')'", 1, 3⟩ := by rfl
  ⟨h, (failure_tells_completable (Or.inr rfl) h).1.1 rfl⟩

end SexpReader
