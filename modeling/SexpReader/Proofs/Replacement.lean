import Mathlib.Data.List.Basic
import SexpReader.Proofs.Encoding
import SexpReader.Utf8.Lossy

/-!
# Two ways to replace what cannot be decoded

A glyph that cannot be decoded is one byte, so a character that breaks off after three bytes is read
as three replacement characters. `Utf8.decodeLossy` writes only one for it. Apart from that the two
read the same: the text of `decodeLossy` is `Utf8.Thinned` out of the characters of the glyphs.

The decoder goes by a table of lead bytes. `Utf8.Announces` says which continuation bytes the table
allows. If they are there, a character is written (`Utf8.decodeLossy_encode_append`). If they are
not, a replacement character stands for the longest piece that could have begun a character
(`Utf8.decodeLossy_of_lost`). Either way the next character begins where a glyph begins.
-/

namespace SexpReader

namespace Utf8

/-- The first text is the second without some of the replacement characters that stand before
another one. -/
inductive Thinned : Text → Text → Prop where
  | nil : Thinned [] []
  | cons (c : CodePoint) {t u : Text} : Thinned t u → Thinned (c :: t) (c :: u)
  | skip {t u : Text} :
      Thinned (.replacement :: t) (.replacement :: u) →
        Thinned (.replacement :: t) (.replacement :: .replacement :: u)

namespace Thinned

variable {t u : Text}

theorem replicate (h : Thinned t u) :
    ∀ n : Nat, Thinned (.replacement :: t)
      (.replacement :: (List.replicate n CodePoint.replacement ++ u))
  | 0 => .cons _ h
  | n + 1 => .skip (replicate h n)

theorem eq_nil_iff (h : Thinned t u) : t = [] ↔ u = [] := by
  cases h with
  | nil => exact Iff.rfl
  | cons => exact iff_of_false (List.cons_ne_nil _ _) (List.cons_ne_nil _ _)
  | skip => exact iff_of_false (List.cons_ne_nil _ _) (List.cons_ne_nil _ _)

theorem length_le (h : Thinned t u) : t.length ≤ u.length := by
  induction h with
  | nil => exact Nat.le_refl _
  | cons _ _ ih => exact Nat.succ_le_succ ih
  | skip _ ih => exact Nat.le_succ_of_le ih

theorem subset (h : Thinned t u) : t ⊆ u := by
  induction h with
  | nil => exact List.Subset.refl _
  | cons c _ ih => exact List.cons_subset_cons c ih
  | skip _ ih => exact List.Subset.trans ih (List.subset_cons_self _ _)

/-- Replacement characters are all that is left out. -/
theorem filter_eq (h : Thinned t u) :
    (t.filter fun c => c ≠ .replacement) = u.filter fun c => c ≠ .replacement := by
  induction h with
  | nil => rfl
  | cons c _ ih => rw [List.filter_cons, List.filter_cons, ih]
  | skip _ ih =>
      rw [ih, List.filter_cons_of_neg (l := _ :: _)]
      simp

end Thinned

/-- The bytes could begin the form of a scalar value. -/
def Starts (b : Bytes) : Prop := ∃ more, IsForm (b ++ more)

/-- The first byte lies between `lo` and `hi`, and the others are continuation bytes. -/
def Fits (lo hi : Nat) : Bytes → Prop
  | [] => True
  | t :: ts => (lo ≤ t.toNat ∧ t.toNat ≤ hi) ∧ ∀ x ∈ ts, isTrail x = true

theorem fits_trails_iff {b : Bytes} : Fits 0x80 0xBF b ↔ ∀ x ∈ b, isTrail x = true := by
  cases b with
  | nil => exact iff_of_true trivial (List.forall_mem_nil _)
  | cons t ts => rw [Fits, List.forall_mem_cons, isTrail_iff]

theorem Fits.of_append {lo hi : Nat} {b more : Bytes} (h : Fits lo hi (b ++ more)) :
    Fits lo hi b := by
  cases b with
  | nil => exact trivial
  | cons t ts => exact ⟨h.1, fun x hx => h.2 x (List.mem_append_left more hx)⟩

theorem Fits.isTrail {lo hi : Nat} {b : Bytes} (h : Fits lo hi b) (hlo : 0x80 ≤ lo)
    (hhi : hi ≤ 0xBF) : ∀ x ∈ b, isTrail x = true := by
  cases b with
  | nil => exact List.forall_mem_nil _
  | cons t ts =>
      obtain ⟨ht, hts⟩ := h
      exact List.forall_mem_cons.2 ⟨isTrail_iff.2 (by omega), hts⟩

/-- A lead byte announces `more + 1` continuation bytes. It depends on the first of them alone
whether they complete the form of a scalar value: it has to lie between `lo` and `hi`. -/
structure Announces (lead : UInt8) (more lo hi : Nat) : Prop where
  begin : beginByte lead = ([], .inside (leadBits (more + 2) lead) (more + 1) lo hi)
  width : leadWidth? lead.toNat = some (more + 2)
  low : 0x80 ≤ lo
  high : hi ≤ 0xBF
  fits_iff {trails : Bytes} (hlen : trails.length = more + 1) :
    Fits lo hi trails ↔ ∃ c, scalar? lead trails = some c

/-- Bytes are the form of a scalar value if the number that they spell needs all of them and is
neither a surrogate nor too large. -/
theorem exists_scalar?_iff {lead : UInt8} {trails : Bytes} :
    (∃ c, scalar? lead trails = some c) ↔
      (∀ x ∈ trails, isTrail x = true) ∧ spelled lead trails < 0x110000 ∧
        ¬ (0xD800 ≤ spelled lead trails ∧ spelled lead trails ≤ 0xDFFF) ∧
        width (spelled lead trails : Int) = trails.length + 1 := by
  constructor
  · rintro ⟨c, hc⟩
    obtain ⟨htrails, hval, hsurrogate, hwidth⟩ := scalar?_eq_some_iff.1 hc
    rw [CodePoint.isSurrogate, Bool.and_eq_false_iff, decide_eq_false_iff_not,
      decide_eq_false_iff_not] at hsurrogate
    rw [hval] at hsurrogate hwidth
    have hlt := c.isLt
    exact ⟨htrails, by omega, by omega, hwidth⟩
  · rintro ⟨htrails, hlt, hsurrogate, hwidth⟩
    refine ⟨⟨_, hlt⟩, scalar?_eq_some_iff.2 ⟨htrails, rfl, ?_, hwidth⟩⟩
    rw [CodePoint.isSurrogate, Bool.and_eq_false_iff, decide_eq_false_iff_not,
      decide_eq_false_iff_not]
    dsimp only
    omega

theorem exists_scalar?_two_iff {lead t : UInt8} (hlo : 0xC2 ≤ lead.toNat)
    (hhi : lead.toNat < 0xE0) :
    Fits 0x80 0xBF [t] ↔ ∃ c, scalar? lead [t] = some c := by
  rw [exists_scalar?_iff, fits_trails_iff, List.forall_mem_singleton, isTrail_iff, spelled_two]
  simp only [List.length_singleton, Nat.reduceAdd, width_eq_two_iff]
  omega

theorem exists_scalar?_three_iff {lead t a : UInt8} (hlo : 0xE0 ≤ lead.toNat)
    (hhi : lead.toNat < 0xF0) :
    Fits (if lead.toNat = 0xE0 then 0xA0 else 0x80) (if lead.toNat = 0xED then 0x9F else 0xBF)
      [t, a] ↔ ∃ c, scalar? lead [t, a] = some c := by
  rw [exists_scalar?_iff, Fits, List.forall_mem_singleton, List.forall_mem_cons,
    List.forall_mem_singleton, isTrail_iff, isTrail_iff, spelled_three]
  simp only [List.length_cons, List.length_nil, Nat.reduceAdd, width_eq_three_iff]
  split <;> split <;> omega

theorem exists_scalar?_four_iff {lead t a b : UInt8} (hlo : 0xF0 ≤ lead.toNat)
    (hhi : lead.toNat ≤ 0xF4) :
    Fits (if lead.toNat = 0xF0 then 0x90 else 0x80) (if lead.toNat = 0xF4 then 0x8F else 0xBF)
      [t, a, b] ↔ ∃ c, scalar? lead [t, a, b] = some c := by
  rw [exists_scalar?_iff, Fits, List.forall_mem_cons, List.forall_mem_singleton,
    List.forall_mem_cons, List.forall_mem_cons, List.forall_mem_singleton, isTrail_iff,
    isTrail_iff, isTrail_iff, spelled_four]
  simp only [List.length_cons, List.length_nil, Nat.reduceAdd, width_eq_four_iff]
  split <;> split <;> omega

theorem announces_two {lead : UInt8} (hlo : 0xC2 ≤ lead.toNat) (hhi : lead.toNat < 0xE0) :
    Announces lead 0 0x80 0xBF where
  begin := by
    unfold beginByte leadBits
    grind
  width := leadWidth?_eq_two_iff.2 ⟨by omega, hhi⟩
  low := Nat.le_refl _
  high := Nat.le_refl _
  fits_iff hlen := by
    obtain ⟨t, rfl⟩ := List.length_eq_one_iff.1 hlen
    exact exists_scalar?_two_iff hlo hhi

theorem announces_three {lead : UInt8} (hlo : 0xE0 ≤ lead.toNat) (hhi : lead.toNat < 0xF0) :
    Announces lead 1 (if lead.toNat = 0xE0 then 0xA0 else 0x80)
      (if lead.toNat = 0xED then 0x9F else 0xBF) where
  begin := by
    unfold beginByte leadBits
    grind
  width := leadWidth?_eq_three_iff.2 ⟨hlo, hhi⟩
  low := by split <;> omega
  high := by split <;> omega
  fits_iff hlen := by
    obtain ⟨t, a, rfl⟩ := List.length_eq_two.1 hlen
    exact exists_scalar?_three_iff hlo hhi

theorem announces_four {lead : UInt8} (hlo : 0xF0 ≤ lead.toNat) (hhi : lead.toNat ≤ 0xF4) :
    Announces lead 2 (if lead.toNat = 0xF0 then 0x90 else 0x80)
      (if lead.toNat = 0xF4 then 0x8F else 0xBF) where
  begin := by
    unfold beginByte leadBits
    grind
  width := leadWidth?_eq_four_iff.2 ⟨hlo, by omega⟩
  low := by split <;> omega
  high := by split <;> omega
  fits_iff hlen := by
    obtain ⟨t, a, b, rfl⟩ := List.length_eq_three.1 hlen
    exact exists_scalar?_four_iff hlo hhi

namespace Announces

variable {lead : UInt8} {more lo hi : Nat}

theorem isForm_iff (h : Announces lead more lo hi) {trails : Bytes} :
    IsForm (lead :: trails) ↔ trails.length = more + 1 ∧ Fits lo hi trails := by
  rw [isForm_cons_iff, h.width, Option.some_inj, Nat.succ_inj, eq_comm (a := more + 1)]
  exact and_congr_right fun hlen => (h.fits_iff hlen).symm

/-- Which bytes behind the lead byte may still become the form of a scalar value. -/
theorem starts_iff (h : Announces lead more lo hi) {piece : Bytes} (hne : piece ≠ [])
    (hlen : piece.length ≤ more + 1) : Starts (lead :: piece) ↔ Fits lo hi piece := by
  constructor
  · rintro ⟨rest, hform⟩
    exact (h.isForm_iff.1 hform).2.of_append
  · intro hfits
    have hlength : (piece ++ List.replicate (more + 1 - piece.length) 0x80).length = more + 1 := by
      rw [List.length_append, List.length_replicate]
      omega
    refine ⟨_, h.isForm_iff.2 ⟨hlength, ?_⟩⟩
    obtain ⟨t, ts, rfl⟩ := List.exists_cons_of_ne_nil hne
    refine ⟨hfits.1, List.forall_mem_append.2 ⟨hfits.2, ?_⟩⟩
    intro x hx
    rw [List.eq_of_mem_replicate hx]
    rfl

end Announces

/-- The other bytes from `0x80` on cannot begin the form of a scalar value. -/
theorem not_isForm_of_lost {lead : UInt8}
    (h : 0x80 ≤ lead.toNat ∧ lead.toNat < 0xC2 ∨ 0xF4 < lead.toNat) (trails : Bytes) :
    ¬ IsForm (lead :: trails) := by
  rw [isForm_cons_iff, exists_scalar?_iff]
  rintro ⟨hw, -, hlt, -, hwidth⟩
  have hcases : (lead.toNat = 0xC0 ∨ lead.toNat = 0xC1) ∧ trails.length = 1 ∨
      0xF5 ≤ lead.toNat ∧ lead.toNat < 0xF8 ∧ trails.length = 3 := by
    unfold leadWidth? at hw
    grind
  rcases hcases with ⟨hlead, hlen⟩ | ⟨hlo, hhi, hlen⟩
  · obtain ⟨a, rfl⟩ := List.length_eq_one_iff.1 hlen
    rw [spelled_two, hlen, width_eq_two_iff] at hwidth
    omega
  · obtain ⟨a, b, c, rfl⟩ := List.length_eq_three.1 hlen
    rw [spelled_four] at hlt
    omega

/-- What a byte does to the decoder between two characters. -/
theorem beginByte_cases (lead : UInt8) :
    (lead.toNat < 0x80 ∧ beginByte lead = ([.ofByte lead], .idle)) ∨
      (beginByte lead = ([.replacement], .idle) ∧ ∀ trails, ¬ IsForm (lead :: trails)) ∨
      ∃ more lo hi, Announces lead more lo hi := by
  by_cases hascii : lead.toNat < 0x80
  · refine .inl ⟨hascii, ?_⟩
    rw [beginByte, dif_pos hascii]
    rfl
  by_cases hlost : lead.toNat < 0xC2 ∨ 0xF4 < lead.toNat
  · refine .inr (.inl ⟨?_, not_isForm_of_lost (by omega)⟩)
    unfold beginByte
    grind
  refine .inr (.inr ?_)
  by_cases htwo : lead.toNat < 0xE0
  · exact ⟨_, _, _, announces_two (by omega) htwo⟩
  by_cases hthree : lead.toNat < 0xF0
  · exact ⟨_, _, _, announces_three (by omega) hthree⟩
  · exact ⟨_, _, _, announces_four (by omega) (by omega)⟩

theorem decodeFrom_cons (state : Pending) (b : UInt8) (rest : Bytes) :
    decodeFrom state (b :: rest) =
      (feedByte state b).1 ++ decodeFrom (feedByte state b).2 rest := rfl

theorem decodeLossy_cons (lead : UInt8) (rest : Bytes) :
    decodeLossy (lead :: rest) =
      (beginByte lead).1 ++ decodeFrom (beginByte lead).2 rest := rfl

/-- A character whose bytes are all there is written. -/
theorem decodeFrom_inside_append {bits more lo hi : Nat} {trails : Bytes}
    (h : Fits lo hi trails) (hlen : trails.length = more + 1) (rest : Bytes) :
    decodeFrom (.inside bits (more + 1) lo hi) (trails ++ rest) =
      (CodePoint.ofScalar? (trails.foldl (fun n b => n * 64 + b.toNat % 64) bits)).getD
        .replacement :: decodeLossy rest := by
  induction more generalizing bits lo hi trails with
  | zero =>
      obtain ⟨t, rfl⟩ := List.length_eq_one_iff.1 hlen
      rw [List.singleton_append, decodeFrom_cons, feedByte, if_pos h.1]
      rfl
  | succ more ih =>
      obtain ⟨t, ts, rfl⟩ := List.exists_of_length_succ trails hlen
      rw [List.cons_append, decodeFrom_cons, feedByte, if_pos h.1]
      exact ih (fits_trails_iff.2 h.2) (Nat.succ_inj.1 hlen)

/-- A character of which a byte is missing is replaced, and the next begins with the byte that
does not fit. -/
theorem decodeFrom_inside_of_broken {bits more lo hi : Nat} {rest : Bytes}
    (h : ∀ trails after : Bytes, rest = trails ++ after → trails.length = more + 1 →
      ¬ Fits lo hi trails) :
    ∃ sub after, rest = sub ++ after ∧ sub.length ≤ more ∧ Fits lo hi sub ∧
      (∀ x ∈ after.head?, ¬ Fits lo hi (sub ++ [x])) ∧
      decodeFrom (.inside bits (more + 1) lo hi) rest = .replacement :: decodeLossy after := by
  induction rest generalizing bits more lo hi with
  | nil => exact ⟨[], [], rfl, Nat.zero_le _, trivial, nofun, rfl⟩
  | cons b rest ih =>
      by_cases hb : lo ≤ b.toNat ∧ b.toNat ≤ hi
      · -- From the second byte on, any continuation byte will do.
        cases more with
        | zero => exact (h [b] rest rfl rfl ⟨hb, List.forall_mem_nil _⟩).elim
        | succ more =>
            have hrest : ∀ trails after : Bytes, rest = trails ++ after →
                trails.length = more + 1 → ¬ Fits 0x80 0xBF trails := by
              rintro trails after rfl hlen hfits
              exact h (b :: trails) after rfl (by rw [List.length_cons, hlen])
                ⟨hb, fits_trails_iff.1 hfits⟩
            obtain ⟨sub, after, rfl, hlen, hsub, hnext, hread⟩ :=
              @ih (bits * 64 + b.toNat % 64) _ _ _ hrest
            refine ⟨b :: sub, after, rfl, Nat.succ_le_succ hlen, ⟨hb, fits_trails_iff.1 hsub⟩,
              ?_, ?_⟩
            · intro x hx hfits
              exact hnext x hx (fits_trails_iff.2 hfits.2)
            · rw [decodeFrom_cons, feedByte, if_pos hb]
              exact hread
      · refine ⟨[], b :: rest, rfl, Nat.zero_le _, trivial, ?_, ?_⟩
        · intro x hx hfits
          cases hx
          exact hb hfits.1
        · rw [decodeFrom_cons, feedByte, if_neg hb]
          rfl

/-- The form of a scalar value is decoded, whatever comes after it. -/
theorem decodeLossy_encode_append {c : CodePoint} (hc : c.isSurrogate = false) (rest : Bytes) :
    decodeLossy (encode c ++ rest) = c :: decodeLossy rest := by
  obtain ⟨lead, trails, hencode, hw, hs⟩ := exists_lead_encode hc
  have hform : IsForm (lead :: trails) := ⟨c, hc, hencode⟩
  rw [hencode, List.cons_append, decodeLossy_cons]
  obtain ⟨hlt, hbegin⟩ | ⟨-, hnone⟩ | ⟨more, lo, hi, hlead⟩ := beginByte_cases lead
  · rw [leadWidth?_eq_one_iff.2 hlt, Option.some_inj] at hw
    obtain rfl := List.length_eq_zero_iff.1 (Nat.succ_inj.1 hw.symm)
    rw [scalar?_nil_of_lt hlt, Option.some_inj] at hs
    rw [← hs, hbegin]
    rfl
  · exact (hnone trails hform).elim
  · obtain ⟨hlen, hfits⟩ := hlead.isForm_iff.1 hform
    obtain ⟨-, hval, -, -⟩ := scalar?_eq_some_iff.1 hs
    have hscalar : CodePoint.ofScalar? (spelled lead trails) = some c :=
      CodePoint.ofScalar?_eq_some_iff.2 ⟨hval, hc⟩
    rw [spelled, hlen] at hscalar
    rw [hlead.begin, decodeFrom_inside_append hfits hlen, hscalar]
    rfl

/-- Where no scalar value has its form, one replacement character is written, for the lead byte
and as many continuation bytes as could begin a form with it. -/
theorem decodeLossy_of_lost {lead : UInt8} {rest : Bytes}
    (h : ∀ trails after : Bytes, rest = trails ++ after → ¬ IsForm (lead :: trails)) :
    ∃ sub after, rest = sub ++ after ∧ (∀ x ∈ sub, isTrail x = true) ∧
      (sub ≠ [] → Starts (lead :: sub)) ∧
      (∀ x ∈ after.head?, ¬ Starts (lead :: (sub ++ [x]))) ∧
      decodeLossy (lead :: rest) = .replacement :: decodeLossy after := by
  rw [decodeLossy_cons]
  obtain ⟨hlt, -⟩ | ⟨hbegin, hnone⟩ | ⟨more, lo, hi, hlead⟩ := beginByte_cases lead
  · refine (h [] rest rfl ?_).elim
    exact isForm_cons_iff.2 ⟨leadWidth?_eq_one_iff.2 hlt, _, scalar?_nil_of_lt hlt⟩
  · refine ⟨[], rest, rfl, List.forall_mem_nil _, fun hne => (hne rfl).elim, ?_, ?_⟩
    · rintro x - ⟨more, hform⟩
      exact hnone _ hform
    · rw [hbegin]
      rfl
  · have hbroken : ∀ trails after : Bytes, rest = trails ++ after →
        trails.length = more + 1 → ¬ Fits lo hi trails :=
      fun trails after hrest hlen hfits => h trails after hrest (hlead.isForm_iff.2 ⟨hlen, hfits⟩)
    obtain ⟨sub, after, hrest, hlen, hsub, hnext, hread⟩ := decodeFrom_inside_of_broken hbroken
    refine ⟨sub, after, hrest, hsub.isTrail hlead.low hlead.high, ?_, ?_, ?_⟩
    · intro hne
      exact (hlead.starts_iff hne (Nat.le_succ_of_le hlen)).2 hsub
    · intro x hx hstarts
      refine hnext x hx ((hlead.starts_iff (List.concat_ne_nil x sub) ?_).1 hstarts)
      rw [List.length_append]
      exact Nat.succ_le_succ hlen
    · rw [hlead.begin]
      exact hread

theorem glyphs_of_lost {lead : UInt8} {rest : Bytes} (h : glyph lead rest = lost lead) :
    glyphs (lead :: rest) = lost lead :: glyphs rest := by
  rw [glyphs_cons, h]
  rfl

/-- A continuation byte is no beginning of a character. -/
theorem glyphs_trails_append {trails : Bytes} (h : ∀ x ∈ trails, isTrail x = true)
    (rest : Bytes) : glyphs (trails ++ rest) = trails.map lost ++ glyphs rest := by
  induction trails with
  | nil => rfl
  | cons b trails ih =>
      have hb := isTrail_iff.1 (h b List.mem_cons_self)
      have hnone : leadWidth? b.toNat = none := by
        unfold leadWidth?
        grind
      have hlost : glyph b (trails ++ rest) = lost b := by
        unfold glyph
        rw [hnone]
      rw [List.cons_append, glyphs_of_lost hlost, ih fun x hx => h x (List.mem_cons_of_mem b hx)]
      rfl

/-- The text of a buffer is thinned out of the characters of its glyphs. -/
theorem thinned_decodeLossy (b : Bytes) : Thinned (decodeLossy b) ((glyphs b).map Glyph.char) := by
  induction h : b.length using Nat.strongRecOn generalizing b with
  | ind n ih =>
      cases b with
      | nil => exact .nil
      | cons lead rest =>
          obtain ⟨c, after, hc, hfront⟩ | ⟨hnone, hglyph⟩ := glyph_cases lead rest
          · have hpos := List.length_pos_of_ne_nil (encode_ne_nil c)
            rw [hfront, List.length_append] at h
            have hafter := ih after.length (by omega) after rfl
            rw [hfront, decodeLossy_encode_append hc, glyphs_encode_append hc, List.map_cons]
            exact .cons c hafter
          · obtain ⟨sub, after, rfl, hsub, -, -, hread⟩ := decodeLossy_of_lost hnone
            rw [List.length_cons, List.length_append] at h
            have hafter := ih after.length (by omega) after rfl
            -- The decoder passes the whole piece at once; each of its bytes is a lost glyph.
            have hchars : (sub.map lost).map Glyph.char =
                List.replicate sub.length CodePoint.replacement := by
              rw [List.map_map]
              exact List.map_const'
            rw [hread, glyphs_of_lost hglyph, glyphs_trails_append hsub, List.map_cons,
              List.map_append, hchars]
            exact hafter.replicate sub.length

/-- A text without surrogates is decoded as it is written. -/
theorem decodeLossy_flatMap_encode {t : Text} (ht : ∀ c ∈ t, c.isSurrogate = false) :
    decodeLossy (t.flatMap encode) = t := by
  induction t with
  | nil => rfl
  | cons c t ih =>
      rw [List.flatMap_cons, decodeLossy_encode_append (ht c List.mem_cons_self),
        ih fun x hx => ht x (List.mem_cons_of_mem c hx)]

end Utf8

end SexpReader
