import Mathlib.Data.List.TakeWhile
import SexpReader.Proofs.Boundary

/-!
# Characters that are written and read again

`Utf8.encode` gives every scalar value a form of its own, and `Utf8.scalar?` knows just these forms.
A form is one glyph, whatever comes after it, and every other byte is lost. So a text without
surrogates that is written is read as the same characters, one glyph for each. Such bytes are
well-formed, and there is no other way in which bytes are.
-/

namespace SexpReader

namespace Utf8

theorem toNat_ofNat_of_lt {n : Nat} (h : n < 256) : (UInt8.ofNat n).toNat = n := by
  rw [UInt8.toNat_ofNat']
  omega

theorem toNat_trail (n : Nat) : (trail n).toNat = 0x80 + n % 64 :=
  toNat_ofNat_of_lt (by omega)

theorem isTrail_trail (n : Nat) : isTrail (trail n) = true := by
  rw [isTrail_iff, toNat_trail]
  omega

theorem width_eq_two_iff {n : Nat} : width n = 2 ↔ 0x80 ≤ n ∧ n ≤ 0x7FF := by
  unfold width
  grind

theorem width_eq_three_iff {n : Nat} : width n = 3 ↔ 0x800 ≤ n ∧ n ≤ 0xFFFF := by
  unfold width
  grind

theorem width_eq_four_iff {n : Nat} : width n = 4 ↔ 0x10000 ≤ n := by
  unfold width
  grind

theorem leadWidth?_eq_two_iff {n : Nat} : leadWidth? n = some 2 ↔ 0xC0 ≤ n ∧ n < 0xE0 := by
  unfold leadWidth?
  grind

theorem leadWidth?_eq_three_iff {n : Nat} : leadWidth? n = some 3 ↔ 0xE0 ≤ n ∧ n < 0xF0 := by
  unfold leadWidth?
  grind

theorem leadWidth?_eq_four_iff {n : Nat} : leadWidth? n = some 4 ↔ 0xF0 ≤ n ∧ n < 0xF8 := by
  unfold leadWidth?
  grind

theorem spelled_two (lead a : UInt8) :
    spelled lead [a] = lead.toNat % 0x20 * 64 + a.toNat % 64 := rfl

theorem spelled_three (lead a b : UInt8) :
    spelled lead [a, b] = (lead.toNat % 0x10 * 64 + a.toNat % 64) * 64 + b.toNat % 64 := rfl

theorem spelled_four (lead a b c : UInt8) :
    spelled lead [a, b, c] =
      ((lead.toNat % 0x08 * 64 + a.toNat % 64) * 64 + b.toNat % 64) * 64 + c.toNat % 64 := rfl

/-- Bytes are the form of the scalar value that they spell, if they take no more room than it
needs. -/
theorem scalar?_eq_some_iff {lead : UInt8} {trails : Bytes} {c : CodePoint} :
    scalar? lead trails = some c ↔
      (∀ x ∈ trails, isTrail x = true) ∧ c.val = spelled lead trails ∧ c.isSurrogate = false ∧
        width c.val = trails.length + 1 := by
  unfold scalar?
  split
  · rename_i htrails
    rw [Option.filter_eq_some_iff, CodePoint.ofScalar?_eq_some_iff, beq_iff_eq, and_assoc]
    exact (and_iff_right (List.all_eq_true.1 htrails)).symm
  · rename_i htrails
    refine iff_of_false nofun ?_
    rintro ⟨h, -⟩
    exact htrails (List.all_eq_true.2 h)

theorem glyph_of_scalar? {lead : UInt8} {trails : Bytes} {c : CodePoint}
    (hw : leadWidth? lead.toNat = some (trails.length + 1)) (hs : scalar? lead trails = some c)
    (rest : Bytes) : glyph lead (trails ++ rest) = ⟨c, lead :: trails⟩ := by
  unfold glyph
  simp only [hw, Nat.add_sub_cancel, List.take_left, hs]
  rw [if_neg (Nat.lt_irrefl _)]

/-- The form of a scalar value begins with the byte that announces its width. -/
theorem exists_lead_encode {c : CodePoint} (hc : c.isSurrogate = false) :
    ∃ lead trails, encode c = lead :: trails ∧
      leadWidth? lead.toNat = some (trails.length + 1) ∧ scalar? lead trails = some c := by
  have hlt := c.isLt
  unfold encode
  split
  · rename_i h
    have hlead : (UInt8.ofNat c.val).toNat = c.val := toNat_ofNat_of_lt (by omega)
    have hbyte : CodePoint.ofByte (UInt8.ofNat c.val) = c := CodePoint.ext hlead
    refine ⟨_, _, rfl, leadWidth?_eq_one_iff.2 (by omega), ?_⟩
    rw [scalar?_nil_of_lt (by omega), hbyte]
  split
  · have hlead : (UInt8.ofNat (0xC0 + c.val / 64)).toNat = 0xC0 + c.val / 64 :=
      toNat_ofNat_of_lt (by omega)
    refine ⟨_, _, rfl, leadWidth?_eq_two_iff.2 (by omega), scalar?_eq_some_iff.2
      ⟨by simp [isTrail_trail], ?_, hc, width_eq_two_iff.2 (by omega)⟩⟩
    rw [spelled_two, hlead, toNat_trail]
    omega
  split
  · have hlead : (UInt8.ofNat (0xE0 + c.val / 4096)).toNat = 0xE0 + c.val / 4096 :=
      toNat_ofNat_of_lt (by omega)
    refine ⟨_, _, rfl, leadWidth?_eq_three_iff.2 (by omega), scalar?_eq_some_iff.2
      ⟨by simp [isTrail_trail], ?_, hc, width_eq_three_iff.2 (by omega)⟩⟩
    rw [spelled_three, hlead, toNat_trail, toNat_trail]
    omega
  · have hlead : (UInt8.ofNat (0xF0 + c.val / 262144)).toNat = 0xF0 + c.val / 262144 :=
      toNat_ofNat_of_lt (by omega)
    refine ⟨_, _, rfl, leadWidth?_eq_four_iff.2 (by omega), scalar?_eq_some_iff.2
      ⟨by simp [isTrail_trail], ?_, hc, width_eq_four_iff.2 (by omega)⟩⟩
    rw [spelled_four, hlead, toNat_trail, toNat_trail, toNat_trail]
    omega

theorem ofNat_eq_of_toNat {b : UInt8} {n : Nat} (h : n = b.toNat) : UInt8.ofNat n = b := by
  rw [h, UInt8.ofNat_toNat]

theorem trail_eq_of_mod {t : UInt8} {n : Nat} (ht : isTrail t = true)
    (h : n % 64 = t.toNat % 64) : trail n = t := by
  rw [isTrail_iff] at ht
  exact ofNat_eq_of_toNat (by omega)

/-- A scalar value has one form only. -/
theorem encode_of_scalar? {lead : UInt8} {trails : Bytes} {c : CodePoint}
    (hw : leadWidth? lead.toNat = some (trails.length + 1)) (hs : scalar? lead trails = some c) :
    encode c = lead :: trails := by
  obtain ⟨htrails, hval, -, hwidth⟩ := scalar?_eq_some_iff.1 hs
  match trails with
  | [] =>
      have hlt := leadWidth?_eq_one_iff.1 hw
      have hlead : UInt8.ofNat c.val = lead := ofNat_eq_of_toNat hval
      have hc : c.val = lead.toNat := hval
      rw [encode, if_pos (by omega), hlead]
  | [a] =>
      rw [List.forall_mem_singleton] at htrails
      rw [List.length_singleton, leadWidth?_eq_two_iff] at hw
      rw [List.length_singleton, width_eq_two_iff] at hwidth
      rw [spelled_two] at hval
      have hlead : UInt8.ofNat (0xC0 + c.val / 64) = lead := ofNat_eq_of_toNat (by omega)
      rw [encode, if_neg (by omega), if_pos hwidth.2, hlead, trail_eq_of_mod htrails (by omega)]
  | [a, b] =>
      rw [List.forall_mem_cons, List.forall_mem_singleton] at htrails
      have hannounced := leadWidth?_eq_three_iff.1 hw
      have hrange := width_eq_three_iff.1 hwidth
      rw [spelled_three] at hval
      have hlead : UInt8.ofNat (0xE0 + c.val / 4096) = lead := ofNat_eq_of_toNat (by omega)
      rw [encode, if_neg (by omega), if_neg (by omega), if_pos hrange.2, hlead,
        trail_eq_of_mod htrails.1 (by omega), trail_eq_of_mod htrails.2 (by omega)]
  | [a, b, x] =>
      rw [List.forall_mem_cons, List.forall_mem_cons, List.forall_mem_singleton] at htrails
      obtain ⟨ha, hb, hx⟩ := htrails
      have hannounced := leadWidth?_eq_four_iff.1 hw
      have hrange := width_eq_four_iff.1 hwidth
      have hlt := c.isLt
      rw [spelled_four] at hval
      have hlead : UInt8.ofNat (0xF0 + c.val / 262144) = lead := ofNat_eq_of_toNat (by omega)
      rw [encode, if_neg (by omega), if_neg (by omega), if_neg (by omega), hlead,
        trail_eq_of_mod ha (by omega), trail_eq_of_mod hb (by omega),
        trail_eq_of_mod hx (by omega)]
  | _ :: _ :: _ :: _ :: _ =>
      simp only [leadWidth?, List.length_cons] at hw
      grind

theorem encode_eq_cons_iff {c : CodePoint} {lead : UInt8} {trails : Bytes} :
    c.isSurrogate = false ∧ encode c = lead :: trails ↔
      leadWidth? lead.toNat = some (trails.length + 1) ∧ scalar? lead trails = some c := by
  constructor
  · rintro ⟨hc, hencode⟩
    obtain ⟨lead', trails', hencode', hw, hs⟩ := exists_lead_encode hc
    rw [hencode, List.cons.injEq] at hencode'
    obtain ⟨rfl, rfl⟩ := hencode'
    exact ⟨hw, hs⟩
  · rintro ⟨hw, hs⟩
    exact ⟨(scalar?_eq_some_iff.1 hs).2.2.1, encode_of_scalar? hw hs⟩

/-- The bytes are the form of a scalar value. -/
def IsForm (b : Bytes) : Prop := ∃ c, c.isSurrogate = false ∧ encode c = b

theorem isForm_cons_iff {lead : UInt8} {trails : Bytes} :
    IsForm (lead :: trails) ↔
      leadWidth? lead.toNat = some (trails.length + 1) ∧ ∃ c, scalar? lead trails = some c := by
  unfold IsForm
  simp only [encode_eq_cons_iff, exists_and_left]

/-- The form of a scalar value is a glyph, whatever comes after it. -/
theorem glyphs_encode_append {c : CodePoint} (hc : c.isSurrogate = false) (rest : Bytes) :
    glyphs (encode c ++ rest) = ⟨c, encode c⟩ :: glyphs rest := by
  obtain ⟨lead, trails, hencode, hw, hs⟩ := exists_lead_encode hc
  rw [hencode, List.cons_append, glyphs_cons, glyph_of_scalar? hw hs rest]
  dsimp only
  rw [List.length_cons, Nat.add_sub_cancel, List.drop_left]

/-- A glyph is lost unless the bytes begin with the form of a scalar value. -/
theorem glyph_cases (lead : UInt8) (rest : Bytes) :
    (∃ c after, c.isSurrogate = false ∧ lead :: rest = encode c ++ after) ∨
      (∀ trails after : Bytes, rest = trails ++ after → ¬ IsForm (lead :: trails)) ∧
        glyph lead rest = lost lead := by
  by_cases h : ∃ trails after : Bytes, rest = trails ++ after ∧ IsForm (lead :: trails)
  · obtain ⟨trails, after, rfl, c, hc, hencode⟩ := h
    exact .inl ⟨c, after, hc, by rw [hencode, List.cons_append]⟩
  · refine .inr ⟨fun trails after hrest hform => h ⟨trails, after, hrest, hform⟩, ?_⟩
    unfold glyph
    cases hw : leadWidth? lead.toNat with
    | none => rfl
    | some w =>
        dsimp only
        split
        · rfl
        · rename_i hlen
          have hwidth : w = (rest.take (w - 1)).length + 1 := by
            have hpos : 0 < w := by
              unfold leadWidth? at hw
              grind
            rw [List.length_take] at hlen ⊢
            omega
          cases hs : scalar? lead (rest.take (w - 1)) with
          | none => rfl
          | some c =>
              refine (h ⟨_, _, (List.take_append_drop (w - 1) rest).symm, ?_⟩).elim
              exact isForm_cons_iff.2 ⟨hw.trans (congrArg some hwidth), c, hs⟩

theorem encode_ne_nil (c : CodePoint) : encode c ≠ [] := by
  apply List.ne_nil_of_length_pos
  rw [length_encode]
  exact width_pos c.val

/-- What is read is never a surrogate. -/
theorem isSurrogate_of_mem_glyphs {b : Bytes} {g : Glyph} (h : g ∈ glyphs b) :
    g.char.isSurrogate = false := by
  obtain ⟨lead, rest, rfl⟩ := exists_glyph_of_mem_glyphs h
  obtain ⟨c, after, hc, hfront⟩ | ⟨-, hlost⟩ := glyph_cases lead rest
  · have hglyphs := glyphs_encode_append hc after
    rw [← hfront, glyphs_cons, List.cons.injEq] at hglyphs
    rw [hglyphs.1]
    exact hc
  · rw [hlost]
    rfl

/-- The glyphs as which a text is written. -/
def written (t : Text) : List Glyph := t.map fun c => ⟨c, encode c⟩

theorem written_cons (c : CodePoint) (t : Text) :
    written (c :: t) = ⟨c, encode c⟩ :: written t := rfl

theorem written_append (t u : Text) : written (t ++ u) = written t ++ written u :=
  List.map_append

theorem flatMap_bytes_written (t : Text) : (written t).flatMap Glyph.bytes = t.flatMap encode := by
  rw [written, List.flatMap_map]

/-- A text without surrogates is read as it is written. -/
theorem glyphs_flatMap_encode {t : Text} (ht : ∀ c ∈ t, c.isSurrogate = false) :
    glyphs (t.flatMap encode) = written t := by
  induction t with
  | nil => rfl
  | cons c t ih =>
      rw [List.flatMap_cons, glyphs_encode_append (ht c List.mem_cons_self),
        ih fun x hx => ht x (List.mem_cons_of_mem c hx), written_cons]

theorem surrogateRun?_eq_none_iff {t : Text} :
    surrogateRun? t = none ↔ ∀ c ∈ t, c.isSurrogate = false := by
  have hdrop : t.drop (t.takeWhile fun c => !c.isSurrogate).length =
      t.dropWhile fun c => !c.isSurrogate :=
    calc t.drop (t.takeWhile fun c => !c.isSurrogate).length
        = (t.takeWhile (fun c => !c.isSurrogate) ++ t.dropWhile fun c => !c.isSurrogate).drop
            (t.takeWhile fun c => !c.isSurrogate).length := by rw [List.takeWhile_append_dropWhile]
      _ = t.dropWhile fun c => !c.isSurrogate := List.drop_left
  have hall : (∀ c ∈ t, c.isSurrogate = false) ↔ (t.dropWhile fun c => !c.isSurrogate) = [] := by
    rw [List.dropWhile_eq_nil_iff]
    simp only [Bool.not_eq_true']
  rw [hall]
  unfold surrogateRun?
  dsimp only
  rw [hdrop]
  cases hrest : t.dropWhile fun c => !c.isSurrogate with
  | nil => exact iff_of_true rfl rfl
  | cons c rest =>
      have hc : c.isSurrogate = true := by
        have hhead := List.head?_dropWhile_not (fun c : CodePoint => !c.isSurrogate) t
        rw [hrest] at hhead
        simpa using hhead
      rw [List.takeWhile_cons_of_pos hc]
      exact iff_of_false nofun nofun

/-- Writing a text fails exactly if it holds a surrogate. -/
theorem encodeText_eq_ok_iff {t : Text} {b : Bytes} :
    encodeText t = .ok b ↔ (∀ c ∈ t, c.isSurrogate = false) ∧ t.flatMap encode = b := by
  rw [← surrogateRun?_eq_none_iff]
  unfold encodeText
  cases surrogateRun? t <;> simp

/-- The bytes are the UTF-8 form of a text. -/
def WellFormed (b : Bytes) : Prop := ∃ t, encodeText t = .ok b

end Utf8

end SexpReader
