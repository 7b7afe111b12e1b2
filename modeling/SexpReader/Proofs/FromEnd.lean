import SexpReader.Proofs.Decoding

/-!
# Reading at an offset from the end

A negative offset names the same byte as the offset with the length of the buffer added, so the same
lead byte announces the same width. The window behind it may be another one, since each of its two
bounds is read on its own. If the window ends before the buffer does, both bounds count from the end
and the window is the same. If it reaches the end or goes beyond, the upper bound counts from the
front, and what lies between the two bounds is shorter than the lead byte announces.

Beyond the end there is nothing to read in either way. So the two offsets differ in one case only:
the last character of a buffer, if it takes more than one byte, is lost when its offset counts from
the end. `Closes` says that this is the case.
-/

namespace SexpReader

namespace Index

variable {α : Type} {xs : List α} {place start stop : Int}

theorem get_of_lt_neg_length (h : place < -xs.length) : ∃ e, get xs place = .error e := by
  apply exists_error_of_get?
  unfold get?
  rw [if_pos (by omega), if_pos (by omega)]

theorem clamp_add_length {n : Nat} {bound : Int} (hlow : -n ≤ bound) (hneg : bound < 0) :
    clamp n (bound + n) = clamp n bound := by
  unfold clamp
  rw [if_neg (by omega), if_pos hneg, Nat.min_eq_left (by omega)]

/-- An element that counts from the end is one that counts from the front. -/
theorem get_add_length (hlen : xs.length ≤ limit) (hlow : -xs.length ≤ place) (hneg : place < 0) :
    get xs (place + xs.length) = get xs place := by
  have hplace : get? xs (place + xs.length) = get? xs place := by
    unfold get?
    rw [if_neg (by omega), if_pos hneg, if_neg (by omega)]
  unfold get
  rw [hplace, if_pos (by omega), if_pos (by omega)]

theorem window_add_length (hlow : -xs.length ≤ start) (hle : start ≤ stop) (hneg : stop < 0) :
    window xs (start + xs.length) (stop + xs.length) = window xs start stop := by
  unfold window
  rw [clamp_add_length hlow (by omega), clamp_add_length (by omega) hneg]

/-- A window from the end that does not end before the sequence does is too short. Its upper bound
counts from the front. -/
theorem length_window_lt {w : Nat} (hlow : -xs.length ≤ place) (hneg : place < 0)
    (hreach : 0 ≤ place + w) : (window xs place (place + w)).length < w := by
  unfold window clamp
  rw [if_pos hneg, if_neg (by omega), List.length_drop, List.length_take]
  omega

end Index

namespace Utf8

variable {b : Bytes} {c : CodePoint} {lead : UInt8} {rest : Bytes} {place place' : Int} {w : Nat}

/-- What is read at an offset depends on the lead byte there and on the window that it asks for. -/
theorem glyphAt_congr (hlead : Index.get b place = .ok lead) (hlead' : Index.get b place' = .ok lead)
    (hwindow : ∀ w : Nat, leadWidth? lead.toNat = some w → w ≠ 1 →
      Index.window b place (place + w) = Index.window b place' (place' + w)) :
    glyphAt b place = glyphAt b place' := by
  unfold glyphAt
  rw [hlead, hlead']
  dsimp only
  split
  · rfl
  · rfl
  · rename_i w hone hw
    rw [hwindow w hw hone]

theorem glyphAt_of_length_window_lt (hlead : Index.get b place = .ok lead)
    (hw : leadWidth? lead.toNat = some w) (hone : w ≠ 1)
    (hshort : (Index.window b place (place + w)).length < w) :
    glyphAt b place = .ok (.replacement, 1) := by
  unfold glyphAt
  rw [hlead]
  simp only [hw]
  split
  · rfl
  · rename_i hwindow
    rw [hwindow, List.length_cons] at hshort
    rw [if_pos hshort]

/-- The form of a scalar value begins with a byte that announces as much as the value needs. -/
theorem Heads.leadWidth?_eq (h : Heads c (lead :: rest)) :
    leadWidth? lead.toNat = some (width c.val) := by
  obtain ⟨trails, after, -, hw, hs⟩ := heads_cons_iff.1 h
  rw [hw, (scalar?_eq_some_iff.1 hs).2.2.2]

theorem Heads.width_le (h : Heads c b) : width c.val ≤ b.length := by
  rw [← length_encode]
  exact h.2.length_le

/-- The form of `c` takes more than one byte. It begins at the offset `place`, which counts from the
end, and ends where the buffer ends. -/
structure Closes (c : CodePoint) (b : Bytes) (place : Int) : Prop where
  heads : Heads c (b.drop (place + b.length).toNat)
  wide : 1 < width c.val
  ends : place + width c.val = 0

/-- There is a byte at every offset that counts from the end, and the offset with the length added
is its offset from the front. -/
theorem exists_lead_from_end (hlen : b.length ≤ Index.limit) (hlow : -b.length ≤ place)
    (hneg : place < 0) : ∃ lead rest, b.drop (place + b.length).toNat = lead :: rest ∧
      Index.get b place = .ok lead ∧
      glyphAt b (place + b.length) =
        .ok ((glyph lead rest).char, (glyph lead rest).bytes.length) := by
  obtain ⟨p, hp⟩ := Int.eq_ofNat_of_zero_le (show 0 ≤ place + b.length by omega)
  rw [hp, Int.toNat_natCast]
  cases hdrop : b.drop p with
  | nil =>
      have hle := List.drop_eq_nil_iff.1 hdrop
      omega
  | cons lead rest =>
      have hlimit : p < Index.limit := by omega
      refine ⟨lead, rest, rfl, ?_, glyphAt_of_drop_eq hlimit hdrop⟩
      rw [← Index.get_add_length hlen hlow hneg, hp]
      exact get_of_drop_eq hlimit hdrop

/-- The two offsets read the same unless the buffer ends with a character that begins there. -/
theorem glyphAt_add_length (hlen : b.length ≤ Index.limit) (hlow : -b.length ≤ place)
    (hneg : place < 0) (hnone : ¬ ∃ c, Closes c b place) :
    glyphAt b (place + b.length) = glyphAt b place := by
  obtain ⟨lead, rest, hdrop, hlead, hfront⟩ := exists_lead_from_end hlen hlow hneg
  by_cases hreach : ∃ w, leadWidth? lead.toNat = some w ∧ w ≠ 1 ∧ 0 ≤ place + (w : Int)
  · -- The window is too short from the end, and it is no form from the front.
    obtain ⟨w, hw, hone, hreach⟩ := hreach
    have hbroken : ¬ ∃ c, Heads c (lead :: rest) := by
      rintro ⟨c, hc⟩
      have hwidth := hc.leadWidth?_eq
      rw [hw, Option.some.injEq] at hwidth
      have hpos := width_pos c.val
      rw [← hdrop] at hc
      have hle := hc.width_le
      rw [List.length_drop] at hle
      exact hnone ⟨c, hc, by omega, by omega⟩
    rw [hfront, glyph_eq_lost hbroken,
      glyphAt_of_length_window_lt hlead hw hone (Index.length_window_lt hlow hneg hreach)]
    rfl
  · apply glyphAt_congr ((Index.get_add_length hlen hlow hneg).trans hlead) hlead
    intro w hw hone
    have hbefore : place + (w : Int) < 0 := Int.not_le.1 fun hle => hreach ⟨w, hw, hone, hle⟩
    rw [← Index.window_add_length hlow (by omega) hbefore, Int.add_right_comm]

/-- The last character is read from the front and lost from the end. -/
theorem Closes.glyphAt_eq (h : Closes c b place) (hlen : b.length ≤ Index.limit)
    (hlow : -b.length ≤ place) :
    glyphAt b place = .ok (.replacement, 1) ∧
      glyphAt b (place + b.length) = .ok (c, width c.val) := by
  have hwide := h.wide
  have hends := h.ends
  have hneg : place < 0 := by omega
  obtain ⟨lead, rest, hdrop, hlead, hfront⟩ := exists_lead_from_end hlen hlow hneg
  have hheads := h.heads
  rw [hdrop] at hheads
  constructor
  · exact glyphAt_of_length_window_lt hlead hheads.leadWidth?_eq (by omega)
      (Index.length_window_lt hlow hneg (by omega))
  · rw [hfront, hheads.glyph_eq]
    dsimp only
    rw [length_encode]

/-- An offset that counts from the end reads the same as the one that counts from the front. The one
exception is the last character of the buffer, if it takes more than one byte: from the front it is
read, from the end one byte is lost. At no offset from the end is there anything to read but a single
character, and before the buffer there is nothing. All offsets of the buffer are taken to be signed
numbers of 64 bits. -/
theorem glyphAt_from_end (b : Bytes) (place : Int) :
    (place < -b.length →
      ∃ e, glyphAt b place = .error e ∧ charAt b place = .error (.index e)) ∧
    (b.length ≤ Index.limit → -b.length ≤ place → place < 0 →
      ∃ fromEnd fromFront : CodePoint × Nat,
        glyphAt b place = .ok fromEnd ∧ charAt b place = .ok ([fromEnd.1], fromEnd.2) ∧
        glyphAt b (place + b.length) = .ok fromFront ∧
        charAt b (place + b.length) = .ok ([fromFront.1], fromFront.2) ∧
        (fromEnd ≠ fromFront ↔ ∃ c, Closes c b place) ∧
        ∀ c, Closes c b place → fromEnd = (.replacement, 1) ∧ fromFront = (c, width c.val)) := by
  constructor
  · intro hbefore
    obtain ⟨e, he⟩ := Index.get_of_lt_neg_length hbefore
    have hat : glyphAt b place = .error e := by rw [glyphAt, he]
    refine ⟨e, hat, ?_⟩
    rw [charAt_eq, hat]
    rfl
  · intro hlen hlow hneg
    by_cases hcloses : ∃ c, Closes c b place
    · obtain ⟨c, hc⟩ := hcloses
      obtain ⟨hend, hfront⟩ := hc.glyphAt_eq hlen hlow
      have hne : ((.replacement, 1) : CodePoint × Nat) ≠ (c, width c.val) := by
        intro heq
        exact Nat.ne_of_lt hc.wide (Prod.mk.inj heq).2
      refine ⟨_, _, hend, charAt_of_glyphAt hend, hfront, charAt_of_glyphAt hfront,
        iff_of_true hne ⟨c, hc⟩, ?_⟩
      intro x hx
      rw [hx.heads.unique hc.heads]
      exact ⟨rfl, rfl⟩
    · obtain ⟨lead, rest, -, -, hfront⟩ := exists_lead_from_end hlen hlow hneg
      have hend := hfront
      rw [glyphAt_add_length hlen hlow hneg hcloses] at hend
      refine ⟨_, _, hend, charAt_of_glyphAt hend, hfront, charAt_of_glyphAt hfront,
        iff_of_false (fun hne => hne rfl) hcloses, ?_⟩
      intro c hc
      exact (hcloses ⟨c, hc⟩).elim

/-- A letter of two bytes and a sign of three. The letter is read from both sides, the sign only from
the front. -/
theorem glyphAt_of_letter_and_last_sign :
    let b : Bytes := [0xC3, 0xA9, 0xE2, 0x82, 0xAC]
    let sign : CodePoint := ⟨0x20AC, by decide⟩
    b.length ≤ Index.limit ∧ Closes sign b (-3) ∧ (¬ ∃ c, Closes c b (-5)) ∧
      glyphAt b (-3) = .ok (.replacement, 1) ∧
      glyphAt b (-3 + b.length) = .ok (sign, width sign.val) ∧
      glyphAt b (-5) = glyphAt b (-5 + b.length) ∧
      ∃ e, glyphAt b (-6) = .error e := by
  intro b sign
  have hlen : b.length ≤ Index.limit := by decide
  have hsign : Closes sign b (-3) := ⟨⟨rfl, [], by decide⟩, by decide, by decide⟩
  have hletter : ¬ ∃ c, Closes c b (-5) := by
    rintro ⟨c, hc⟩
    have hlead : leadWidth? (0xC3 : UInt8).toNat = some 2 := by decide
    have hheads : Heads c (0xC3 :: [0xA9, 0xE2, 0x82, 0xAC]) := hc.heads
    have hwidth := hheads.leadWidth?_eq
    rw [hlead, Option.some.injEq] at hwidth
    have hends := hc.ends
    omega
  obtain ⟨x, y, hx, -, hy, -, -, hlost⟩ :=
    (glyphAt_from_end b (-3)).2 hlen (by decide) (by decide)
  obtain ⟨rfl, rfl⟩ := hlost sign hsign
  obtain ⟨u, v, hu, -, hv, -, hdiffer, -⟩ :=
    (glyphAt_from_end b (-5)).2 hlen (by decide) (by decide)
  have hsame : u = v := by
    by_contra hne
    exact hletter (hdiffer.1 hne)
  obtain ⟨e, he, -⟩ := (glyphAt_from_end b (-6)).1 (by decide)
  exact ⟨hlen, hsign, hletter, hx, hy, by rw [hu, hv, hsame], e, he⟩

end Utf8

end SexpReader
