import SexpReader.Proofs.ExactValue
import SexpReader.Proofs.TypedReads

/-!
# Widening

A finite number of a format is the least positive number of the format some number of times, which
`Format.magnitude` tells from the fields. Different fields make different magnitudes, so a pattern
can be told from what it denotes, unless it is not a number.

`Double.Widens` lists what comes of the fields when they are widened, and in each of its cases the
fields denote the same after as before. In the last of them the number has no leading one in 32
bits: the highest bit of the fraction becomes the leading one in 64 bits, and the exponent says how
far it had to be moved.
-/

namespace SexpReader

/-- The sign of a number. What is not a number has any sign. -/
def Number.HasSign (negative : Bool) : Number → Prop
  | .nan => True
  | .infinite s => s = negative
  | .finite s _ => s = negative

/-- A number can be told from its sign and its value. -/
theorem Number.eq_of_quantity? {n n' : Number} {negative : Bool} (hn : n.HasSign negative)
    (hn' : n'.HasSign negative) (hnan : n.quantity? ≠ none) (h : n.quantity? = n'.quantity?) :
    n = n' := by
  have heq := Option.map_injective Extended.quantity_injective h
  cases n with
  | nan => exact (hnan rfl).elim
  | infinite s =>
      cases hn
      cases n' with
      | nan => cases heq
      | infinite s' =>
          cases hn'
          rfl
      | finite s' units' => cases heq
  | finite s units =>
      cases hn
      cases n' with
      | nan => cases heq
      | infinite s' => cases heq
      | finite s' units' =>
          cases hn'
          have hunits := Extended.finite.inj (Option.some.inj heq)
          congr 1
          split at hunits <;> omega

namespace Format

variable {f : Format} {pattern e m : Nat} {negative : Bool}

/-! ## Patterns and their fields -/

/-- The number of patterns. -/
def size (f : Format) : Nat := 2 ^ (f.exponentBits + f.fractionBits + 1)

theorem exponent_lt (f : Format) (pattern : Nat) : f.exponent pattern < 2 ^ f.exponentBits := by
  rw [exponent, Nat.one_shiftLeft]
  exact Nat.mod_lt _ (Nat.two_pow_pos _)

theorem fraction_lt (f : Format) (pattern : Nat) : f.fraction pattern < 2 ^ f.fractionBits := by
  rw [fraction, Nat.one_shiftLeft]
  exact Nat.mod_lt _ (Nat.two_pow_pos _)

theorem pack_eq (f : Format) (negative : Bool) (e m : Nat) :
    f.pack negative e m = (negative.toNat * 2 ^ f.exponentBits + e) * 2 ^ f.fractionBits + m := by
  rw [pack, Nat.shiftLeft_eq, Nat.shiftLeft_eq]

theorem pack_div (hm : m < 2 ^ f.fractionBits) :
    f.pack negative e m / 2 ^ f.fractionBits = negative.toNat * 2 ^ f.exponentBits + e := by
  rw [pack_eq, Nat.mul_comm, Nat.mul_add_div (Nat.two_pow_pos _), Nat.div_eq_of_lt hm, Nat.add_zero]

theorem fraction_pack (hm : m < 2 ^ f.fractionBits) : f.fraction (f.pack negative e m) = m := by
  rw [fraction, Nat.one_shiftLeft, pack_eq, Nat.mul_comm, Nat.mul_add_mod, Nat.mod_eq_of_lt hm]

theorem exponent_pack (he : e < 2 ^ f.exponentBits) (hm : m < 2 ^ f.fractionBits) :
    f.exponent (f.pack negative e m) = e := by
  rw [exponent, Nat.one_shiftLeft, Nat.shiftRight_eq_div_pow, pack_div hm, Nat.mul_comm,
    Nat.mul_add_mod, Nat.mod_eq_of_lt he]

theorem negative_pack (he : e < 2 ^ f.exponentBits) (hm : m < 2 ^ f.fractionBits) :
    f.negative (f.pack negative e m) = negative := by
  rw [Format.negative, Nat.shiftRight_eq_div_pow, Nat.pow_add, Nat.mul_comm,
    ← Nat.div_div_eq_div_mul, pack_div hm, Nat.mul_comm, Nat.mul_add_div (Nat.two_pow_pos _),
    Nat.div_eq_of_lt he]
  cases negative <;> rfl

theorem pack_lt (he : e < 2 ^ f.exponentBits) (hm : m < 2 ^ f.fractionBits) :
    f.pack negative e m < f.size := by
  have hupper : negative.toNat * 2 ^ f.exponentBits + e + 1 ≤ 2 ^ f.exponentBits * 2 := by
    cases negative <;> simp <;> omega
  calc f.pack negative e m
      < (negative.toNat * 2 ^ f.exponentBits + e + 1) * 2 ^ f.fractionBits := by
        rw [pack_eq, Nat.succ_mul]
        exact Nat.add_lt_add_left hm _
    _ ≤ 2 ^ f.exponentBits * 2 * 2 ^ f.fractionBits := Nat.mul_le_mul_right _ hupper
    _ = f.size := by rw [size, Nat.pow_succ, Nat.pow_add, Nat.mul_right_comm]

/-- A pattern is made of its fields. -/
theorem pack_fields (h : pattern < f.size) :
    f.pack (f.negative pattern) (f.exponent pattern) (f.fraction pattern) = pattern := by
  have hsign : (f.negative pattern).toNat = pattern / 2 ^ f.fractionBits / 2 ^ f.exponentBits := by
    have hlt : pattern / 2 ^ f.fractionBits / 2 ^ f.exponentBits < 2 := by
      rw [Nat.div_div_eq_div_mul, ← Nat.pow_add, Nat.add_comm f.fractionBits]
      exact Nat.div_lt_of_lt_mul h
    rw [Format.negative, Nat.shiftRight_eq_div_pow, Nat.add_comm f.exponentBits, Nat.pow_add,
      ← Nat.div_div_eq_div_mul, Nat.mod_eq_of_lt hlt]
    generalize pattern / 2 ^ f.fractionBits / 2 ^ f.exponentBits = bit at hlt
    obtain rfl | rfl : bit = 0 ∨ bit = 1 := by omega
    · rfl
    · rfl
  rw [pack_eq, hsign, exponent, fraction, Nat.one_shiftLeft, Nat.one_shiftLeft,
    Nat.shiftRight_eq_div_pow, Nat.div_add_mod', Nat.div_add_mod']

/-! ## Magnitudes -/

/-- How often the least positive number of the format goes into a number. -/
def magnitude (f : Format) (e m : Nat) : Nat :=
  if e = 0 then m else (2 ^ f.fractionBits + m) * 2 ^ (e - 1)

/-- What the fields of a pattern denote. -/
def denoted (f : Format) (negative : Bool) (e m : Nat) : Number :=
  if e = 2 ^ f.exponentBits - 1 then
    if m = 0 then .infinite negative else .nan
  else .finite negative (f.magnitude e m * 2 ^ f.scale)

theorem number_eq_denoted (f : Format) (pattern : Nat) :
    f.number pattern =
      f.denoted (f.negative pattern) (f.exponent pattern) (f.fraction pattern) := by
  unfold number denoted magnitude
  simp only [Nat.shiftLeft_eq, Nat.one_mul]
  split
  · rfl
  · split <;> rfl

theorem denoted_of_ne (negative : Bool) (he : e ≠ 2 ^ f.exponentBits - 1) (m : Nat) :
    f.denoted negative e m = .finite negative (f.magnitude e m * 2 ^ f.scale) := if_neg he

theorem denoted_last (f : Format) (negative : Bool) (m : Nat) :
    f.denoted negative (2 ^ f.exponentBits - 1) m =
      if m = 0 then .infinite negative else .nan := if_pos rfl

theorem number_pack (he : e < 2 ^ f.exponentBits) (hm : m < 2 ^ f.fractionBits) :
    f.number (f.pack negative e m) = f.denoted negative e m := by
  rw [number_eq_denoted, negative_pack he hm, exponent_pack he hm, fraction_pack hm]

theorem magnitude_zero (f : Format) (m : Nat) : f.magnitude 0 m = m := if_pos rfl

theorem magnitude_succ (f : Format) (e m : Nat) :
    f.magnitude (e + 1) m = (2 ^ f.fractionBits + m) * 2 ^ e := if_neg (Nat.succ_ne_zero e)

/-- A greater exponent field makes a greater magnitude. -/
theorem magnitude_lt_magnitude {e' : Nat} (he : e < e') (hm : m < 2 ^ f.fractionBits) (m' : Nat) :
    f.magnitude e m < f.magnitude e' m' := by
  have hupper : f.magnitude e m < 2 ^ (f.fractionBits + e) := by
    cases e with
    | zero =>
        rw [magnitude_zero]
        exact hm
    | succ e =>
        rw [magnitude_succ, ← Nat.add_assoc, Nat.add_right_comm, Nat.pow_add, Nat.pow_succ]
        exact Nat.mul_lt_mul_of_pos_right (by omega) (Nat.two_pow_pos e)
  obtain ⟨k, rfl⟩ : ∃ k, e' = k + 1 := Nat.exists_eq_succ_of_ne_zero (Nat.ne_of_gt he.bot_lt)
  calc f.magnitude e m
      < 2 ^ (f.fractionBits + e) := hupper
    _ ≤ 2 ^ (f.fractionBits + k) := Nat.pow_le_pow_right (by decide) (by omega)
    _ = 2 ^ f.fractionBits * 2 ^ k := Nat.pow_add ..
    _ ≤ (2 ^ f.fractionBits + m') * 2 ^ k := Nat.mul_le_mul_right _ (Nat.le_add_right _ _)
    _ = f.magnitude (k + 1) m' := (magnitude_succ f k m').symm

/-- Different fields make different magnitudes. -/
theorem magnitude_inj {e' m' : Nat} (hm : m < 2 ^ f.fractionBits) (hm' : m' < 2 ^ f.fractionBits)
    (h : f.magnitude e m = f.magnitude e' m') : e = e' ∧ m = m' := by
  obtain hlt | rfl | hlt := Nat.lt_trichotomy e e'
  · exact (Nat.ne_of_lt (magnitude_lt_magnitude hlt hm m') h).elim
  · refine ⟨rfl, ?_⟩
    cases e with
    | zero => exact h
    | succ e =>
        rw [magnitude_succ, magnitude_succ] at h
        exact Nat.add_left_cancel (Nat.eq_of_mul_eq_mul_right (Nat.two_pow_pos e) h)
  · exact (Nat.ne_of_lt (magnitude_lt_magnitude hlt hm' m) h.symm).elim

/-- The fields of a number can be told from it. -/
theorem denoted_inj {negative' : Bool} {e' m' : Nat} (hm : m < 2 ^ f.fractionBits)
    (hm' : m' < 2 ^ f.fractionBits) (hnan : ¬ (e = 2 ^ f.exponentBits - 1 ∧ m ≠ 0))
    (h : f.denoted negative e m = f.denoted negative' e' m') :
    negative = negative' ∧ e = e' ∧ m = m' := by
  unfold denoted at h
  by_cases he : e = 2 ^ f.exponentBits - 1
  · have hzero : m = 0 := not_not.1 fun hne => hnan ⟨he, hne⟩
    rw [if_pos he, if_pos hzero] at h
    by_cases he' : e' = 2 ^ f.exponentBits - 1
    · by_cases hzero' : m' = 0
      · rw [if_pos he', if_pos hzero'] at h
        exact ⟨Number.infinite.inj h, he.trans he'.symm, hzero.trans hzero'.symm⟩
      · rw [if_pos he', if_neg hzero'] at h
        cases h
    · rw [if_neg he'] at h
      cases h
  · rw [if_neg he] at h
    by_cases he' : e' = 2 ^ f.exponentBits - 1
    · rw [if_pos he'] at h
      split at h <;> cases h
    · rw [if_neg he', Number.finite.injEq] at h
      obtain ⟨hnegative, hunits⟩ := h
      exact ⟨hnegative, magnitude_inj hm hm'
        (Nat.eq_of_mul_eq_mul_right (Nat.two_pow_pos f.scale) hunits)⟩

/-- A pattern can be told from its number. -/
theorem pattern_eq_of_number {pattern' : Nat} (h : pattern < f.size) (h' : pattern' < f.size)
    (hnan : ¬ f.IsNan pattern) (heq : f.number pattern = f.number pattern') :
    pattern = pattern' := by
  rw [number_eq_denoted, number_eq_denoted] at heq
  obtain ⟨hnegative, he, hm⟩ := denoted_inj (f.fraction_lt _) (f.fraction_lt _) hnan heq
  rw [← pack_fields h, ← pack_fields h', hnegative, he, hm]

theorem quantity?_eq_none_iff (f : Format) (pattern : Nat) :
    f.quantity? pattern = none ↔ f.IsNan pattern := by
  unfold quantity? IsNan
  dsimp only
  by_cases he : f.exponent pattern = 2 ^ f.exponentBits - 1
  · by_cases hm : f.fraction pattern = 0
    · rw [if_pos he, if_pos hm]
      exact iff_of_false (Option.some_ne_none _) fun h => h.2 hm
    · rw [if_pos he, if_neg hm]
      exact iff_of_true rfl ⟨he, hm⟩
  · rw [if_neg he]
    refine iff_of_false ?_ fun h => he h.1
    split <;> exact Option.some_ne_none _

theorem hasSign_number (f : Format) (pattern : Nat) :
    (f.number pattern).HasSign (f.negative pattern) := by
  unfold number
  dsimp only
  split
  · split
    · rfl
    · trivial
  · split <;> rfl

/-- A pattern can be told from its sign and its value. -/
theorem IsScaled.pattern_eq (hf : f.IsScaled) {pattern' : Nat} (h : pattern < f.size)
    (h' : pattern' < f.size) (hnan : ¬ f.IsNan pattern)
    (hsign : f.negative pattern = f.negative pattern')
    (hquantity : f.quantity? pattern = f.quantity? pattern') : pattern = pattern' := by
  refine pattern_eq_of_number h h' hnan ?_
  rw [← hf.quantity?_number, ← hf.quantity?_number] at hquantity
  have hsign' := f.hasSign_number pattern'
  rw [← hsign] at hsign'
  refine Number.eq_of_quantity? (f.hasSign_number pattern) hsign' ?_ hquantity
  rwa [hf.quantity?_number, Ne, quantity?_eq_none_iff]

end Format

/-! ## Widened fields -/

namespace Double

theorem bits_ofPattern {n : Nat} (h : n < Format.double.size) : (ofPattern n).bits.toNat = n :=
  (BitVec.toNat_ofNat ..).trans (Nat.mod_eq_of_lt h)

/-- All that can come of widening fields: the last exponent stays the last, an exponent is moved to
the other bias, zero stays zero, and a small number loses its leading one. -/
inductive Widens : Nat → Nat → Nat × Nat → Prop
  | last {m : Nat} (hm : m < 2 ^ 23) : Widens 255 m (2047, m * 2 ^ 29)
  | normal {k m : Nat} (hk : k < 254) (hm : m < 2 ^ 23) : Widens (k + 1) m (k + 897, m * 2 ^ 29)
  | zero : Widens 0 0 (0, 0)
  | small {top low : Nat} (htop : top < 23) (hlow : low < 2 ^ top) :
      Widens 0 (2 ^ top + low) (top + 874, low * 2 ^ (52 - top))

variable {e m : Nat} {fields : Nat × Nat}

theorem widens (he : e < 2 ^ 8) (hm : m < 2 ^ 23) : Widens e m (widenFields e m) := by
  simp only [widenFields, Nat.shiftLeft_eq, Nat.one_mul]
  split
  · next hlast =>
    subst hlast
    exact .last hm
  · next hlast =>
    split
    · next hzero =>
      obtain ⟨k, rfl⟩ : ∃ k, e = k + 1 := Nat.exists_eq_succ_of_ne_zero hzero
      exact .normal (by omega) hm
    · next hzero =>
      obtain rfl : e = 0 := not_not.1 hzero
      split
      · next hm0 =>
        subst hm0
        exact .zero
      · next hm0 =>
        -- The highest bit of the fraction is the leading one.
        have hle : 2 ^ m.log2 ≤ m := Nat.log2_self_le hm0
        have hlt : m < 2 ^ (m.log2 + 1) := Nat.lt_log2_self
        rw [Nat.pow_succ] at hlt
        have hsplit : m = 2 ^ m.log2 + (m - 2 ^ m.log2) := (Nat.add_sub_cancel' hle).symm
        have hlow : m - 2 ^ m.log2 < 2 ^ m.log2 := by omega
        have hsmall := Widens.small ((Nat.log2_lt hm0).2 hm) hlow
        rw [← hsplit] at hsmall
        exact hsmall

/-- A fraction of `top` bits is moved to the upper end of 52 bits. -/
theorem mul_two_pow_lt {top low : Nat} (htop : top ≤ 52) (hlow : low < 2 ^ top) :
    low * 2 ^ (52 - top) < 2 ^ 52 := by
  calc low * 2 ^ (52 - top)
      < 2 ^ top * 2 ^ (52 - top) := Nat.mul_lt_mul_of_pos_right hlow (Nat.two_pow_pos _)
    _ = 2 ^ 52 := by rw [← Nat.pow_add, Nat.add_sub_cancel' htop]

theorem Widens.lt (h : Widens e m fields) : fields.1 < 2 ^ 11 ∧ fields.2 < 2 ^ 52 := by
  cases h with
  | last hm => exact ⟨(by decide : 2047 < 2 ^ 11), mul_two_pow_lt (by decide) hm⟩
  | normal hk hm => exact ⟨by dsimp only; omega, mul_two_pow_lt (by decide) hm⟩
  | zero => exact ⟨by decide, by decide⟩
  | small htop hlow => exact ⟨by dsimp only; omega, mul_two_pow_lt (by omega) hlow⟩

theorem denoted_eq_of_magnitude {e' m' : Nat} (negative : Bool) (he : e ≠ 255) (he' : e' ≠ 2047)
    (h : Format.double.magnitude e' m' =
      Format.single.magnitude e m * 2 ^ Format.single.scale) :
    Format.double.denoted negative e' m' = Format.single.denoted negative e m := by
  have hunits : Format.double.scale = 0 := rfl
  rw [Format.denoted_of_ne negative he', Format.denoted_of_ne negative he, h, hunits, Nat.pow_zero,
    Nat.mul_one]

/-- Widening the fields keeps what they denote. -/
theorem Widens.denoted (h : Widens e m fields) (negative : Bool) :
    Format.double.denoted negative fields.1 fields.2 = Format.single.denoted negative e m := by
  have hbits : Format.single.fractionBits = 23 := rfl
  have hscale : Format.single.scale = 925 := rfl
  cases h with
  | @last m hm =>
      have hzero : m * 2 ^ 29 = 0 ↔ m = 0 := by omega
      have hdouble := Format.denoted_last Format.double negative (m * 2 ^ 29)
      simp only [hzero] at hdouble
      exact hdouble.trans (Format.denoted_last Format.single negative m).symm
  | @normal k m hk hm =>
      refine denoted_eq_of_magnitude negative (by omega) (by dsimp only; omega) ?_
      have hfraction : (2 ^ 52 + m * 2 ^ 29 : Nat) = (2 ^ 23 + m) * 2 ^ 29 := by omega
      have hexponent : 29 + (k + 896) = k + Format.single.scale := by omega
      calc Format.double.magnitude (k + 896 + 1) (m * 2 ^ 29)
          = (2 ^ 52 + m * 2 ^ 29) * 2 ^ (k + 896) := Format.magnitude_succ ..
        _ = (2 ^ 23 + m) * (2 ^ k * 2 ^ Format.single.scale) := by
          rw [hfraction, Nat.mul_assoc, ← Nat.pow_add, hexponent, Nat.pow_add]
        _ = Format.single.magnitude (k + 1) m * 2 ^ Format.single.scale := by
          rw [Format.magnitude_succ, hbits, Nat.mul_assoc]
  | zero =>
      refine denoted_eq_of_magnitude negative (by decide) (by decide) ?_
      rw [Format.magnitude_zero, Format.magnitude_zero, Nat.zero_mul]
  | @small top low htop hlow =>
      refine denoted_eq_of_magnitude negative (by decide) (by dsimp only; omega) ?_
      have hfraction : 2 ^ 52 + low * 2 ^ (52 - top) = (2 ^ top + low) * 2 ^ (52 - top) := by
        rw [Nat.add_mul, ← Nat.pow_add, Nat.add_sub_cancel' (by omega)]
      have hexponent : 52 - top + (top + 873) = Format.single.scale := by omega
      calc Format.double.magnitude (top + 873 + 1) (low * 2 ^ (52 - top))
          = (2 ^ 52 + low * 2 ^ (52 - top)) * 2 ^ (top + 873) := Format.magnitude_succ ..
        _ = (2 ^ top + low) * 2 ^ Format.single.scale := by
          rw [hfraction, Nat.mul_assoc, ← Nat.pow_add, hexponent]
        _ = Format.single.magnitude 0 (2 ^ top + low) * 2 ^ Format.single.scale := by
          rw [Format.magnitude_zero]

/-- The pattern that comes of widening is the sign with the widened fields. -/
theorem bits_widen (pattern : Nat) :
    ∃ fields, Widens (Format.single.exponent pattern) (Format.single.fraction pattern) fields ∧
      (widen pattern).bits.toNat =
        Format.double.pack (Format.single.negative pattern) fields.1 fields.2 := by
  have hwidens := widens (Format.single.exponent_lt pattern) (Format.single.fraction_lt pattern)
  refine ⟨_, hwidens, ?_⟩
  exact bits_ofPattern (Format.pack_lt hwidens.lt.1 hwidens.lt.2)

/-- Widening keeps what a pattern denotes. -/
theorem number_widen (pattern : Nat) : (widen pattern).number = Format.single.number pattern := by
  obtain ⟨fields, hwidens, hbits⟩ := bits_widen pattern
  rw [number, hbits, Format.number_eq_denoted Format.single, ← hwidens.denoted]
  exact Format.number_pack hwidens.lt.1 hwidens.lt.2

/-- Widening keeps the sign, also of what is not a number. -/
theorem negative_widen (pattern : Nat) :
    (widen pattern).negative = Format.single.negative pattern := by
  obtain ⟨fields, hwidens, hbits⟩ := bits_widen pattern
  rw [Double.negative, hbits]
  exact Format.negative_pack hwidens.lt.1 hwidens.lt.2

theorem quantity?_widen (pattern : Nat) :
    (widen pattern).quantity? = Format.single.quantity? pattern := by
  rw [← quantity?_number, number_widen, Format.isScaled_single.quantity?_number]

/-- A pattern can be told from the double that it is widened to. -/
theorem widen_inj {pattern pattern' : Nat} (h : pattern < Format.single.size)
    (h' : pattern' < Format.single.size) (hnan : ¬ Format.single.IsNan pattern)
    (hwiden : widen pattern = widen pattern') : pattern = pattern' := by
  refine Format.pattern_eq_of_number h h' hnan ?_
  rw [← number_widen, ← number_widen, hwiden]

/-- A double can be told from its sign and its value. -/
theorem eq_of_quantity? {d d' : Double} (hnan : d.quantity? ≠ none)
    (hsign : d.negative = d'.negative) (hquantity : d.quantity? = d'.quantity?) : d = d' := by
  have hbits := Format.isScaled_double.pattern_eq d.bits.isLt d'.bits.isLt
    (mt (Format.quantity?_eq_none_iff _ _).2 hnan) hsign hquantity
  exact congrArg Double.mk (BitVec.eq_of_toNat_eq hbits)

end Double

/-! ## What is read -/

theorem Endian.read_lt_of_length {bs : Bytes} {width : Nat} (hlen : bs.length = width) :
    read bs < 1 <<< bits width := by
  rw [← hlen]
  exact read_lt bs

namespace Cursor

variable {c : Cursor} {w : Want} {k : Kind}

/-- Enough bytes for a kind of fixed width are all it takes to find a value. -/
theorem look_fixed (hk : k ≠ .char) (hw : w.Names k) (hle : k.width ≤ c.remaining) :
    c.look w = .ok ⟨k.decode (c.rest.take k.width), k.width, k.width⟩ := by
  have hpos := k.width_pos
  rw [look_of_names hw]
  refine lookKind_of_le hk ?_
  unfold remaining at hle
  omega

theorem get_fixed (hk : k ≠ .char) (hw : w.Names k) (hle : k.width ≤ c.remaining) :
    c.get w = .ok (k.decode (c.rest.take k.width)) := by
  rw [get_eq_map, look_fixed hk hw hle]
  rfl

end Cursor

/-- A `float32` is the double with the sign and the exact value of the pattern of 32 bits, of which
there is only one, or not a number if the pattern is not. So the double tells from which of the
patterns it is. -/
theorem float32_widens_exactly :
    (∀ (c : Cursor) (w : Want), w.Names .float32 → 4 ≤ c.remaining →
      let pattern := Endian.read (c.rest.take 4)
      ∃ d, c.get w = .ok (.double d) ∧
        d.negative = Format.single.negative pattern ∧
        d.quantity? = Format.single.quantity? pattern ∧
        (Format.double.IsNan d.bits.toNat ↔ Format.single.IsNan pattern) ∧
        (¬ Format.single.IsNan pattern →
          (∃ x, d.quantity? = some x) ∧
          ∀ d' : Double, d'.negative = Format.single.negative pattern →
            d'.quantity? = Format.single.quantity? pattern → d' = d)) ∧
    ∀ (c c' : Cursor) (w w' : Want), w.Names .float32 → w'.Names .float32 →
      4 ≤ c.remaining → 4 ≤ c'.remaining →
      ¬ Format.single.IsNan (Endian.read (c.rest.take 4)) →
      c.get w = c'.get w' → c.rest.take 4 = c'.rest.take 4 := by
  refine ⟨?_, ?_⟩
  · intro c w hw hle pattern
    have hnone := Double.quantity?_widen pattern
    refine ⟨.widen pattern, Cursor.get_fixed (by decide) hw hle, Double.negative_widen pattern,
      hnone, ?_, ?_⟩
    · rw [← Format.quantity?_eq_none_iff, ← Format.quantity?_eq_none_iff, ← hnone]
      rfl
    · intro hnan
      have hsome : (Double.widen pattern).quantity? ≠ none := by
        rwa [hnone, Ne, Format.quantity?_eq_none_iff]
      refine ⟨Option.ne_none_iff_exists'.1 hsome, fun d' hsign hquantity => ?_⟩
      exact (Double.eq_of_quantity? hsome ((Double.negative_widen pattern).trans hsign.symm)
        (hnone.trans hquantity.symm)).symm
  · intro c c' w w' hw hw' hle hle' hnan heq
    rw [Cursor.get_fixed (by decide) hw hle, Cursor.get_fixed (by decide) hw' hle'] at heq
    have hwiden := Value.double.inj (Except.ok.inj heq)
    have hlen : (c.rest.take 4).length = 4 := Cursor.length_take_rest hle
    have hlen' : (c'.rest.take 4).length = 4 := Cursor.length_take_rest hle'
    have hread := Double.widen_inj (Endian.read_lt_of_length hlen) (Endian.read_lt_of_length hlen')
      hnan hwiden
    rw [← Endian.write_read (c.rest.take 4), ← Endian.write_read (c'.rest.take 4), hlen, hlen',
      hread]

/-- The least positive number of 32 bits, which is `2 ^ (-149)`, and the negative zero. -/
theorem float32_of_least_and_negative_zero :
    let c := Cursor.ofBytes [0x01, 0x00, 0x00, 0x00]
    let c' := Cursor.ofBytes [0x00, 0x00, 0x00, 0x80]
    c.get (.kind .float32) = .ok (.double ⟨0x36A0000000000000⟩) ∧
      (⟨0x36A0000000000000⟩ : Double).quantity? = some (.rational (2 ^ (-149 : ℤ))) ∧
      c'.get (.named "float32") = .ok (.double ⟨0x8000000000000000⟩) ∧
      (⟨0x8000000000000000⟩ : Double).quantity? = some (.rational 0) ∧
      (⟨0x8000000000000000⟩ : Double).negative = true ∧
      c.get (.kind .float32) ≠ c'.get (.named "float32") := by
  intro c c'
  obtain ⟨hwidens, htells⟩ := float32_widens_exactly
  obtain ⟨d, hget, -, hquantity, -⟩ := hwidens c (.kind .float32) (.inl rfl) (by decide)
  obtain ⟨d', hget', hsign', hquantity', -⟩ := hwidens c' (.named "float32") (.inr rfl) (by decide)
  have hwiden : Double.widen 1 = ⟨0x36A0000000000000⟩ := by decide +kernel
  have hwiden' : Double.widen 0x80000000 = ⟨0x8000000000000000⟩ := by decide +kernel
  have hleast : c.get (.kind .float32) = .ok (.double (Double.widen 1)) := rfl
  have hzero : c'.get (.named "float32") = .ok (.double (Double.widen 0x80000000)) := rfl
  rw [hwiden] at hleast
  rw [hwiden'] at hzero
  obtain rfl := Value.double.inj (Except.ok.inj (hleast.symm.trans hget))
  obtain rfl := Value.double.inj (Except.ok.inj (hzero.symm.trans hget'))
  refine ⟨hleast, hquantity.trans ?_, hzero, hquantity'.trans ?_, hsign'.trans (by decide), ?_⟩
  · decide +kernel
  · decide +kernel
  · intro heq
    have hbytes := htells c c' _ _ (.inl rfl) (.inr rfl) (by decide) (by decide) (by decide) heq
    revert hbytes
    decide

end SexpReader
