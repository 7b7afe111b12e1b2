import SexpReader.Proofs.Encoding

/-!
# Decoding one character

Reading a character at an offset undoes writing one. If the bytes from there on begin with the form
of a scalar value, there is only one such value, and it is read with the width of its form. If they
do not, one byte is lost. `IsBroken` lists the ways in which this comes about.

The lead byte only announces a width, and some lead bytes announce a width though no form begins
with them. What decides is whether the window of this width can be decoded. `charAt` decodes the
window as a whole text and asks for the width of the text that comes of it, which is refused for
anything but a single character. A window that begins with such a lead byte never holds a second
character, so `charAt` is not refused and reads what `glyphAt` reads.
-/

namespace SexpReader

namespace Index

variable {α : Type} {xs : List α} {place : Int} {x : α}

/-- Where there is no element, there is a reason for it. -/
theorem exists_error_of_get? (h : get? xs place = none) : ∃ e, get xs place = .error e := by
  unfold get
  rw [h]
  split
  · exact ⟨_, rfl⟩
  · exact ⟨_, rfl⟩

/-- The element at a place is where a window from this place on begins. -/
theorem getElem?_clamp (h : get xs place = .ok x) : xs[clamp xs.length place]? = some x := by
  have hx := (get_eq_ok_iff.1 h).2
  unfold get? at hx
  unfold clamp
  split at hx
  · rename_i hneg
    split at hx
    · cases hx
    · rw [if_pos hneg, hx]
  · rename_i hneg
    have hlt := (List.getElem?_eq_some_iff.1 hx).1
    rw [if_neg hneg, Nat.min_eq_left (Nat.le_of_lt hlt), hx]

/-- A window of `w` places is empty or begins with the element at its first place, and it is never
longer than it should be. -/
theorem window_cases (h : get xs place = .ok x) (w : Nat) :
    window xs place (place + w) = [] ∨
      ∃ ys, window xs place (place + w) = x :: ys ∧ ys.length + 1 ≤ w := by
  obtain ⟨hlt, hx⟩ := List.getElem?_eq_some_iff.1 (getElem?_clamp h)
  have hwidth : clamp xs.length (place + w) - clamp xs.length place ≤ w := by
    unfold clamp at hlt ⊢
    split at hlt <;> split <;> omega
  unfold window
  rw [List.drop_take, List.drop_eq_getElem_cons hlt, hx]
  cases hn : clamp xs.length (place + w) - clamp xs.length place with
  | zero => exact .inl rfl
  | succ n =>
      rw [hn] at hwidth
      exact .inr ⟨_, rfl, Nat.le_trans (Nat.succ_le_succ (List.length_take_le _ _)) hwidth⟩

end Index

namespace Utf8

variable {b : Bytes} {c x : CodePoint} {lead : UInt8} {trails rest : Bytes} {t : Text}

/-! ## Forms at the front -/

/-- The bytes begin with the form of the scalar value `c`. -/
def Heads (c : CodePoint) (b : Bytes) : Prop := c.isSurrogate = false ∧ encode c <+: b

/-- The ways in which bytes begin with no form: the first byte announces no width, or there are too
few continuation bytes behind it; or there are as many as it announces, but what they spell needs
fewer bytes, is a surrogate, or is no code point at all. -/
inductive IsBroken : Bytes → Prop
  | lead {lead : UInt8} {rest : Bytes} (h : leadWidth? lead.toNat = none) :
      IsBroken (lead :: rest)
  | truncated {lead : UInt8} {rest : Bytes} {w : Nat} (h : leadWidth? lead.toNat = some w)
      (hshort : (rest.takeWhile isTrail).length + 1 < w) : IsBroken (lead :: rest)
  | overlong {lead : UInt8} {trails : Bytes} (rest : Bytes)
      (h : leadWidth? lead.toNat = some (trails.length + 1))
      (htrails : ∀ x ∈ trails, isTrail x = true)
      (hlong : width (spelled lead trails) < trails.length + 1) :
      IsBroken (lead :: (trails ++ rest))
  | surrogate {lead : UInt8} {trails : Bytes} (rest : Bytes)
      (h : leadWidth? lead.toNat = some (trails.length + 1))
      (htrails : ∀ x ∈ trails, isTrail x = true)
      (hle : 0xD800 ≤ spelled lead trails) (hge : spelled lead trails ≤ 0xDFFF) :
      IsBroken (lead :: (trails ++ rest))
  | tooLarge {lead : UInt8} {trails : Bytes} (rest : Bytes)
      (h : leadWidth? lead.toNat = some (trails.length + 1))
      (htrails : ∀ x ∈ trails, isTrail x = true)
      (hlarge : 0x110000 ≤ spelled lead trails) : IsBroken (lead :: (trails ++ rest))

theorem Heads.glyphs_eq (h : Heads c b) :
    glyphs b = ⟨c, encode c⟩ :: glyphs (b.drop (encode c).length) := by
  obtain ⟨hc, rest, rfl⟩ := h
  rw [glyphs_encode_append hc, List.drop_left]

/-- There is at most one scalar value whose form is at the front. -/
theorem Heads.unique (hc : Heads c b) (hx : Heads x b) : x = c := by
  have h := hx.glyphs_eq.symm.trans hc.glyphs_eq
  rw [List.cons.injEq, Glyph.mk.injEq] at h
  exact h.1.1

theorem Heads.glyph_eq (h : Heads c (lead :: rest)) : glyph lead rest = ⟨c, encode c⟩ := by
  have hglyphs := h.glyphs_eq
  rw [glyphs_cons, List.cons.injEq] at hglyphs
  exact hglyphs.1

theorem glyph_eq_lost (h : ¬ ∃ c, Heads c (lead :: rest)) : glyph lead rest = lost lead := by
  obtain ⟨c, after, hc, hfront⟩ | ⟨-, hlost⟩ := glyph_cases lead rest
  · exact (h ⟨c, hc, after, hfront.symm⟩).elim
  · exact hlost

theorem heads_cons_iff : Heads c (lead :: rest) ↔ ∃ trails after, rest = trails ++ after ∧
    leadWidth? lead.toNat = some (trails.length + 1) ∧ scalar? lead trails = some c := by
  constructor
  · rintro ⟨hc, after, hfront⟩
    cases hencode : encode c with
    | nil => exact (encode_ne_nil c hencode).elim
    | cons lead' trails =>
        rw [hencode, List.cons_append, List.cons.injEq] at hfront
        obtain ⟨rfl, rfl⟩ := hfront
        exact ⟨trails, after, rfl, encode_eq_cons_iff.1 ⟨hc, hencode⟩⟩
  · rintro ⟨trails, after, rfl, hform⟩
    obtain ⟨hc, hencode⟩ := encode_eq_cons_iff.2 hform
    exact ⟨hc, after, by rw [hencode, List.cons_append]⟩

/-- What a lead byte and the continuation bytes it announces spell never needs more bytes. -/
theorem width_spelled_le (h : leadWidth? lead.toNat = some (trails.length + 1)) :
    width (spelled lead trails) ≤ trails.length + 1 := by
  match trails with
  | [] =>
      have hlt := leadWidth?_eq_one_iff.1 h
      have hspelled : spelled lead [] = lead.toNat := rfl
      unfold width
      rw [if_pos (by omega)]
      exact Nat.le_refl 1
  | [a] =>
      have hlt : spelled lead [a] ≤ 0x7FF := by
        rw [spelled_two]
        omega
      unfold width
      grind
  | [a, a'] =>
      have hlt : spelled lead [a, a'] ≤ 0xFFFF := by
        rw [spelled_three]
        omega
      unfold width
      grind
  | [a, a', a''] =>
      unfold width
      grind
  | _ :: _ :: _ :: _ :: _ =>
      unfold width
      grind

theorem trails_eq_of_append_eq {after after' trails' : Bytes}
    (h : leadWidth? lead.toNat = some (trails.length + 1))
    (h' : leadWidth? lead.toNat = some (trails'.length + 1))
    (happend : trails ++ after = trails' ++ after') : trails = trails' := by
  rw [h, Option.some.injEq, Nat.add_right_cancel_iff] at h'
  exact (List.append_inj happend h').1

theorem IsBroken.not_heads (h : IsBroken b) : ¬ ∃ c, Heads c b := by
  rintro ⟨c, hc⟩
  cases h with
  | lead h =>
      obtain ⟨trails, after, -, hw, -⟩ := heads_cons_iff.1 hc
      rw [h] at hw
      cases hw
  | @truncated lead rest w h hshort =>
      obtain ⟨trails, after, rfl, hw, hs⟩ := heads_cons_iff.1 hc
      have htrails := isTrail_of_scalar?_eq_some hs
      rw [h, Option.some.injEq] at hw
      rw [List.takeWhile_append_of_pos htrails, List.length_append] at hshort
      omega
  | overlong rest h _ hlong =>
      obtain ⟨trails', after, happend, hw, hs⟩ := heads_cons_iff.1 hc
      cases trails_eq_of_append_eq h hw happend
      obtain ⟨-, hval, -, hwidth⟩ := scalar?_eq_some_iff.1 hs
      rw [← hval, hwidth] at hlong
      exact Nat.lt_irrefl _ hlong
  | surrogate rest h _ hle hge =>
      obtain ⟨trails', after, happend, hw, hs⟩ := heads_cons_iff.1 hc
      cases trails_eq_of_append_eq h hw happend
      obtain ⟨-, hval, hsurrogate, -⟩ := scalar?_eq_some_iff.1 hs
      rw [← hval] at hle hge
      rw [CodePoint.isSurrogate, decide_eq_true hle, decide_eq_true hge] at hsurrogate
      cases hsurrogate
  | tooLarge rest h _ hlarge =>
      obtain ⟨trails', after, happend, hw, hs⟩ := heads_cons_iff.1 hc
      cases trails_eq_of_append_eq h hw happend
      rw [← (scalar?_eq_some_iff.1 hs).2.1] at hlarge
      exact Nat.not_le_of_lt c.isLt hlarge

/-- Bytes begin with the form of a scalar value, or they are broken. -/
theorem heads_or_isBroken (lead : UInt8) (rest : Bytes) :
    (∃ c, Heads c (lead :: rest)) ∨ IsBroken (lead :: rest) := by
  cases hw : leadWidth? lead.toNat with
  | none => exact .inr (.lead hw)
  | some w =>
      rcases Nat.lt_or_ge ((rest.takeWhile isTrail).length + 1) w with hshort | henough
      · exact .inr (.truncated hw hshort)
      · -- There are enough continuation bytes, and what they spell decides.
        have hpos : 0 < w := by
          unfold leadWidth? at hw
          grind
        obtain ⟨trails, after, rfl, hlen, htrails⟩ : ∃ trails after, rest = trails ++ after ∧
            trails.length + 1 = w ∧ ∀ x ∈ trails, isTrail x = true := by
          refine ⟨(rest.takeWhile isTrail).take (w - 1), (rest.takeWhile isTrail).drop (w - 1) ++
            rest.dropWhile isTrail, ?_, ?_, ?_⟩
          · rw [← List.append_assoc, List.take_append_drop, List.takeWhile_append_dropWhile]
          · rw [List.length_take]
            omega
          · intro x hx
            exact List.mem_takeWhile_imp (List.mem_of_mem_take hx)
        subst hlen
        rcases Nat.lt_or_ge (spelled lead trails) 0x110000 with hlt | hlarge
        · cases hsurrogate : (CodePoint.mk _ hlt).isSurrogate with
          | true =>
              rw [CodePoint.isSurrogate, Bool.and_eq_true, decide_eq_true_eq, decide_eq_true_eq]
                at hsurrogate
              exact .inr (.surrogate after hw htrails hsurrogate.1 hsurrogate.2)
          | false =>
              rcases Nat.lt_or_eq_of_le (width_spelled_le hw) with hlong | hwidth
              · exact .inr (.overlong after hw htrails hlong)
              · exact .inl ⟨_, heads_cons_iff.2 ⟨trails, after, rfl, hw,
                  scalar?_eq_some_iff.2 ⟨htrails, rfl, hsurrogate, hwidth⟩⟩⟩
        · exact .inr (.tooLarge after hw htrails hlarge)

theorem not_heads_iff (hb : b ≠ []) : (¬ ∃ c, Heads c b) ↔ IsBroken b := by
  cases b with
  | nil => exact (hb rfl).elim
  | cons lead rest => exact ⟨(heads_or_isBroken lead rest).resolve_left, IsBroken.not_heads⟩

/-! ## Decoding a window as a whole -/

/-- The text of which the bytes are the form, if there is one. -/
def decodeText? (b : Bytes) : Option Text :=
  let t := (glyphs b).map Glyph.char
  if t.flatMap encode = b then some t else none

theorem decodeText?_eq_some_iff : decodeText? b = some t ↔ encodeText t = .ok b := by
  rw [encodeText_eq_ok_iff]
  unfold decodeText?
  dsimp only
  constructor
  · intro h
    split at h
    · rename_i hencode
      cases h
      refine ⟨?_, hencode⟩
      intro c hc
      obtain ⟨g, hg, rfl⟩ := List.mem_map.1 hc
      exact isSurrogate_of_mem_glyphs hg
    · cases h
  · rintro ⟨ht, rfl⟩
    have hchars : (glyphs (t.flatMap encode)).map Glyph.char = t := by
      rw [glyphs_flatMap_encode ht, written, List.map_map]
      exact List.map_id t
    rw [hchars, if_pos rfl]

/-- A window of the announced width is the form of one character or of no text at all. -/
theorem decodeText?_of_lead (hw : leadWidth? lead.toNat = some (trails.length + 1)) :
    decodeText? (lead :: trails) = (scalar? lead trails).map fun c => [c] := by
  cases hs : scalar? lead trails with
  | some c =>
      rw [Option.map_some, decodeText?_eq_some_iff, encodeText_eq_ok_iff, List.forall_mem_singleton,
        List.flatMap_singleton]
      exact encode_eq_cons_iff.2 ⟨hw, hs⟩
  | none =>
      rw [Option.map_none, Option.eq_none_iff_forall_ne_some]
      intro t ht
      rw [decodeText?_eq_some_iff, encodeText_eq_ok_iff] at ht
      obtain ⟨hscalar, hencode⟩ := ht
      cases t with
      | nil => cases hencode
      | cons c t =>
          rw [List.flatMap_cons] at hencode
          have hheads : Heads c (lead :: trails) :=
            ⟨hscalar c List.mem_cons_self, _, hencode⟩
          obtain ⟨trails', after, happend, hw', hs'⟩ := heads_cons_iff.1 hheads
          rw [← trails_eq_of_append_eq hw hw' ((List.append_nil trails).trans happend), hs] at hs'
          cases hs'

/-- Why no character could be read. -/
inductive CharError where
  | index (error : Index.Error)
  | length (error : LengthError)
deriving DecidableEq

/-- The text that a window of `w` bytes holds, and the width of the text. A window that is too short
or not well-formed stands for a lost byte. -/
def textOfWindow (window : Bytes) (w : Nat) : Except CharError (Text × Nat) :=
  if window.length < w then .ok ([.replacement], 1)
  else match decodeText? window with
    | none => .ok ([.replacement], 1)
    | some t =>
      match widthOfText t with
      | .error e => .error (.length e)
      | .ok n => .ok (t, n)

/-- The text at an offset and its width. The lead byte tells how long the window is. -/
def charAt (b : Bytes) (offset : Int) : Except CharError (Text × Nat) :=
  match Index.get b offset with
  | .error e => .error (.index e)
  | .ok lead =>
    match leadWidth? lead.toNat with
    | none => .ok ([.replacement], 1)
    | some 1 => .ok ([.ofByte lead], 1)
    | some w => textOfWindow (Index.window b offset (offset + w)) w

/-- The window holds a single character whenever it can be decoded, at every offset. -/
theorem charAt_eq (b : Bytes) (offset : Int) :
    charAt b offset = ((glyphAt b offset).map fun p => ([p.1], p.2)).mapError .index := by
  unfold charAt glyphAt
  cases hlead : Index.get b offset with
  | error e => rfl
  | ok lead =>
      dsimp only
      cases hw : leadWidth? lead.toNat with
      | none => rfl
      | some w =>
          by_cases hone : w = 1
          · subst hone
            rw [ofScalar?_of_lt (leadWidth?_eq_one_iff.1 hw)]
            rfl
          · simp only
            obtain ⟨v, rfl⟩ := Nat.exists_eq_add_of_le' (two_le_of_leadWidth?_eq_some hw hone)
            obtain hwindow | ⟨trails, hwindow, hle⟩ := Index.window_cases hlead (v + 2)
            · rw [hwindow]
              rfl
            · rw [hwindow, textOfWindow, List.length_cons]
              dsimp only
              split
              · rfl
              · have hlen : v + 2 = trails.length + 1 := by omega
                rw [decodeText?_of_lead (hw.trans (congrArg some hlen))]
                cases scalar? lead trails <;> rfl

theorem charAt_of_glyphAt {offset : Int} {p : CodePoint × Nat} (h : glyphAt b offset = .ok p) :
    charAt b offset = .ok ([p.1], p.2) := by
  rw [charAt_eq, h]
  rfl

/-! ## At an offset -/

theorem glyphAt_of_length_le {offset : Nat} (h : b.length ≤ offset) :
    ∃ e, glyphAt b offset = .error e := by
  have hnone : Index.get? b offset = none := by
    rw [Index.get?_natCast]
    exact List.getElem?_eq_none h
  obtain ⟨e, he⟩ := Index.exists_error_of_get? hnone
  exact ⟨e, by rw [glyphAt, he]⟩

/-- Reading a character at an offset is the inverse of writing one. At every offset in the buffer,
which is a signed number of 64 bits, a character is read, and it is no wider than what is left. If
the bytes there begin with the form of a scalar value, this value is the only one, it is read, and
its form is stepped over; otherwise the bytes are broken, and one of them is lost. At no offset is
there anything else to read than a single character, and outside the buffer there is nothing. -/
theorem glyphAt_inverts_encode (b : Bytes) (offset : Nat) :
    (b.length ≤ offset → ∃ e, glyphAt b offset = .error e ∧ charAt b offset = .error (.index e)) ∧
    (offset < b.length → offset < Index.limit → ∃ c w,
      glyphAt b offset = .ok (c, w) ∧ charAt b offset = .ok ([c], w) ∧
      1 ≤ w ∧ w ≤ b.length - offset ∧
      ((∃ x, Heads x (b.drop offset)) →
        Heads c (b.drop offset) ∧ (∀ x, Heads x (b.drop offset) → x = c) ∧
        w = (encode c).length ∧ w = width c.val ∧
        Index.window b offset (offset + w) = encode c) ∧
      ((¬ ∃ x, Heads x (b.drop offset)) → c = .replacement ∧ w = 1) ∧
      ((¬ ∃ x, Heads x (b.drop offset)) ↔ IsBroken (b.drop offset))) := by
  constructor
  · intro h
    obtain ⟨e, he⟩ := glyphAt_of_length_le h
    refine ⟨e, he, ?_⟩
    rw [charAt_eq, he]
    rfl
  · intro hoffset hlimit
    cases hdrop : b.drop offset with
    | nil => exact (Nat.not_le_of_lt hoffset (List.drop_eq_nil_iff.1 hdrop)).elim
    | cons lead rest =>
        have hat := glyphAt_of_drop_eq hlimit hdrop
        have hleft : (lead :: rest).length = b.length - offset := by
          rw [← hdrop, List.length_drop]
        refine ⟨(glyph lead rest).char, (glyph lead rest).bytes.length, hat, ?_,
          length_glyph_pos lead rest, ?_, ?_, ?_, not_heads_iff (List.cons_ne_nil _ _)⟩
        · rw [charAt_eq, hat, Except.map, Except.mapError]
        · have hsplit := congrArg List.length (glyph_bytes_append_drop lead rest)
          rw [List.length_append] at hsplit
          omega
        · rintro ⟨c, hc⟩
          obtain ⟨after, hfront⟩ := hc.2
          rw [hc.glyph_eq]
          refine ⟨hc, fun x hx => hc.unique hx, rfl, length_encode c, ?_⟩
          rw [Index.window_natCast, hdrop, ← hfront, List.take_left]
        · intro hnone
          rw [glyph_eq_lost hnone]
          exact ⟨rfl, rfl⟩

/-- A letter, a sign of three bytes, and three bytes that spell too little for their number. -/
theorem glyphAt_of_sign_and_overlong :
    let b : Bytes := [0x61, 0xE2, 0x82, 0xAC, 0xE0, 0x80, 0x80]
    let sign : CodePoint := ⟨0x20AC, by decide⟩
    Heads sign (b.drop 1) ∧ IsBroken (b.drop 4) ∧
      (∃ w, glyphAt b (1 : Nat) = .ok (sign, w) ∧ w = width sign.val ∧
        Index.window b (1 : Nat) ((1 : Nat) + w) = encode sign) ∧
      (∃ w, glyphAt b (4 : Nat) = .ok (.replacement, w) ∧ w = 1) ∧
      ∃ e, glyphAt b (7 : Nat) = .error e := by
  intro b sign
  have hsign : Heads sign (b.drop 1) := ⟨rfl, [0xE0, 0x80, 0x80], by decide⟩
  have hbroken : IsBroken (0xE0 :: ([0x80, 0x80] ++ [])) :=
    .overlong [] (by decide) (List.all_eq_true.1 (by decide)) (by decide)
  obtain ⟨c, w, hat, -, -, -, hread, -⟩ :=
    (glyphAt_inverts_encode b 1).2 (by decide) (by decide)
  obtain ⟨-, hunique, -, hwidth, hwindow⟩ := hread ⟨sign, hsign⟩
  cases hunique sign hsign
  obtain ⟨c', w', hat', -, -, -, -, hlost, -⟩ :=
    (glyphAt_inverts_encode b 4).2 (by decide) (by decide)
  obtain ⟨rfl, hone⟩ := hlost hbroken.not_heads
  obtain ⟨e, he, -⟩ := (glyphAt_inverts_encode b 7).1 (by decide)
  exact ⟨hsign, hbroken, ⟨w, hat, hwidth, hwindow⟩, ⟨w', hat', hone⟩, e, he⟩

end Utf8

end SexpReader
