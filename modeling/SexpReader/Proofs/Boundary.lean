import SexpReader.Utf8.Glyph

/-!
# Where glyphs begin

Cutting a buffer into glyphs looks ahead: how wide a glyph is depends on the bytes after its lead
byte. It never looks behind the glyph, though. So a buffer that is cut in two between two glyphs
has the same glyphs as its two parts, and what stands at such a place can be read there without
knowing what came before.

A place between two glyphs is a boundary of the buffer. The two ends are boundaries too.
-/

namespace SexpReader

theorem Index.clamp_natCast (n p : Nat) : clamp n p = min p n := by
  unfold clamp
  rw [if_neg (by omega)]
  rfl

theorem Index.get?_natCast {α : Type} (xs : List α) (p : Nat) : get? xs p = xs[p]? := by
  unfold get?
  rw [if_neg (by omega), Int.toNat_natCast]

theorem Index.get_eq_ok_iff {α : Type} {xs : List α} {place : Int} {x : α} :
    get xs place = .ok x ↔ (-limit ≤ place ∧ place < limit) ∧ get? xs place = some x := by
  unfold get
  split
  · rename_i hlimit
    rw [and_iff_right hlimit]
    cases get? xs place <;> simp
  · rename_i hlimit
    exact iff_of_false nofun fun h => hlimit h.1

/-- The window of `w` places from `p` on. It is cut short where the sequence ends. -/
theorem Index.window_natCast {α : Type} (xs : List α) (p w : Nat) :
    window xs p (p + w) = (xs.drop p).take w := by
  rw [← Int.natCast_add]
  unfold window
  rw [clamp_natCast, clamp_natCast, ← List.take_eq_take_min, List.drop_take]
  rcases Nat.le_total p xs.length with hle | hge
  · rw [Nat.min_eq_left hle, Nat.add_sub_cancel_left]
  · rw [Nat.min_eq_right hge, List.drop_length, List.drop_eq_nil_of_le hge, List.take_nil,
      List.take_nil]

/-- The code point with the number of a byte. -/
def CodePoint.ofByte (b : UInt8) : CodePoint :=
  ⟨b.toNat, by have h := b.toNat_lt; omega⟩

namespace Utf8

theorem ofScalar?_of_lt {b : UInt8} (h : b.toNat < 0x80) :
    CodePoint.ofScalar? b.toNat = some (.ofByte b) := by
  rw [CodePoint.ofScalar?_eq_some_iff]
  refine ⟨rfl, ?_⟩
  have hlow : ¬ 0xD800 ≤ (CodePoint.ofByte b).val := by
    change ¬ 0xD800 ≤ b.toNat
    omega
  rw [CodePoint.isSurrogate, decide_eq_false hlow, Bool.false_and]

theorem leadWidth?_eq_one_iff {n : Nat} : leadWidth? n = some 1 ↔ n < 0x80 := by
  unfold leadWidth?
  grind

theorem two_le_of_leadWidth?_eq_some {n w : Nat} (h : leadWidth? n = some w) (hw : w ≠ 1) :
    2 ≤ w := by
  unfold leadWidth? at h
  grind

theorem scalar?_nil_of_lt {b : UInt8} (h : b.toNat < 0x80) :
    scalar? b [] = some (.ofByte b) := by
  have hspelled : spelled b [] = b.toNat := rfl
  have hwidth : width ((CodePoint.ofByte b).val : Int) = 1 := by
    unfold width CodePoint.ofByte
    rw [if_pos (by dsimp only; omega)]
  rw [scalar?, List.all_nil, if_pos rfl, hspelled, ofScalar?_of_lt h, Option.filter_some, hwidth]
  rfl

theorem isTrail_iff {b : UInt8} : isTrail b = true ↔ 0x80 ≤ b.toNat ∧ b.toNat ≤ 0xBF := by
  rw [isTrail, Bool.and_eq_true, decide_eq_true_eq, decide_eq_true_eq]
  omega

/-- The width of a scalar value is the number of the bytes that spell it. -/
theorem width_of_scalar?_eq_some {lead : UInt8} {trails : Bytes} {c : CodePoint}
    (h : scalar? lead trails = some c) : width c.val = trails.length + 1 := by
  unfold scalar? at h
  split at h
  · obtain ⟨-, hwidth⟩ := Option.filter_eq_some_iff.1 h
    rw [beq_iff_eq] at hwidth
    exact hwidth
  · cases h

theorem isTrail_of_scalar?_eq_some {lead : UInt8} {trails : Bytes} {c : CodePoint}
    (h : scalar? lead trails = some c) : ∀ x ∈ trails, isTrail x = true := by
  unfold scalar? at h
  split at h
  · rename_i htrails
    exact List.all_eq_true.1 htrails
  · cases h

theorem glyph_eq_single {lead : UInt8} {c : CodePoint}
    (hw : leadWidth? lead.toNat = some 1) (hc : scalar? lead [] = some c) (rest : Bytes) :
    glyph lead rest = ⟨c, [lead]⟩ := by
  have hlen : ¬ (rest.take (1 - 1)).length + 1 < 1 := by
    rw [Nat.sub_self, List.take_zero, List.length_nil]
    omega
  unfold glyph
  rw [hw]
  dsimp only
  rw [if_neg hlen, Nat.sub_self, List.take_zero, hc]

/-- A byte below `0x80` is a glyph of its own, whatever comes after it. -/
theorem glyph_of_lt {b : UInt8} (h : b.toNat < 0x80) (rest : Bytes) :
    glyph b rest = ⟨.ofByte b, [b]⟩ :=
  glyph_eq_single (leadWidth?_eq_one_iff.2 h) (scalar?_nil_of_lt h) rest

/-- From `0x80` on, a byte begins a glyph without any lower byte in it, and its character is no
lower either. -/
theorem glyph_of_le {b : UInt8} (h : 0x80 ≤ b.toNat) (rest : Bytes) :
    0x80 ≤ (glyph b rest).char.val ∧ ∀ x ∈ (glyph b rest).bytes, 0x80 ≤ x.toNat := by
  have hlost : 0x80 ≤ (lost b).char.val ∧ ∀ x ∈ (lost b).bytes, 0x80 ≤ x.toNat := by
    refine ⟨(by decide : 0x80 ≤ CodePoint.replacement.val), ?_⟩
    intro x hx
    rw [lost, List.mem_singleton] at hx
    rw [hx]
    exact h
  unfold glyph
  cases hw : leadWidth? b.toNat with
  | none => exact hlost
  | some w =>
      dsimp only
      split
      · exact hlost
      · rename_i hlen
        cases hs : scalar? b (rest.take (w - 1)) with
        | none => exact hlost
        | some c =>
            have hne : w ≠ 1 := by
              intro hw1
              rw [hw1, leadWidth?_eq_one_iff] at hw
              omega
            have hw2 := two_le_of_leadWidth?_eq_some hw hne
            have hwidth := width_of_scalar?_eq_some hs
            constructor
            · dsimp only
              unfold width at hwidth
              grind
            · intro x hx
              rcases List.mem_cons.1 hx with rfl | hx
              · exact h
              · exact (isTrail_iff.1 (isTrail_of_scalar?_eq_some hs x hx)).1

theorem get_of_drop_eq {b : Bytes} {p : Nat} {lead : UInt8} {rest : Bytes}
    (hp : p < Index.limit) (h : b.drop p = lead :: rest) : Index.get b p = .ok lead := by
  have hlead : b[p]? = some lead := by
    rw [← List.head?_drop, h, List.head?_cons]
  rw [Index.get_eq_ok_iff, Index.get?_natCast]
  exact ⟨⟨by omega, by omega⟩, hlead⟩

theorem window_of_drop_eq {b : Bytes} {p : Nat} {lead : UInt8} {rest : Bytes}
    (h : b.drop p = lead :: rest) {w : Nat} (hw : 2 ≤ w) :
    Index.window b p (p + w) = lead :: rest.take (w - 1) := by
  obtain ⟨v, rfl⟩ := Nat.exists_eq_add_of_le' hw
  rw [Index.window_natCast, h]
  rfl

/-- Reading at an offset finds the glyph of the byte there and of the windows that begin with
it. -/
theorem glyphAt_of_window {b : Bytes} {place : Int} {lead : UInt8} {rest : Bytes}
    (hlead : Index.get b place = .ok lead)
    (hwindow : ∀ w : Nat, 2 ≤ w → Index.window b place (place + w) = lead :: rest.take (w - 1)) :
    glyphAt b place = .ok ((glyph lead rest).char, (glyph lead rest).bytes.length) := by
  unfold glyphAt
  rw [hlead]
  dsimp only
  split
  · rename_i hw
    unfold glyph
    rw [hw]
    rfl
  · rename_i hw
    have hlt := leadWidth?_eq_one_iff.1 hw
    rw [glyph_of_lt hlt, ofScalar?_of_lt hlt]
    rfl
  · rename_i w hne hw
    have hw2 := two_le_of_leadWidth?_eq_some hw hne
    rw [hwindow w hw2]
    unfold glyph
    rw [hw]
    dsimp only
    split
    · rfl
    · cases hs : scalar? lead (rest.take (w - 1)) with
      | none => rfl
      | some c =>
          dsimp only
          rw [width_of_scalar?_eq_some hs, List.length_cons]

/-- Reading at an offset that does not count from the end gives the glyph at the front of the
bytes from there on. An offset has 64 bits. -/
theorem glyphAt_of_drop_eq {b : Bytes} {p : Nat} {lead : UInt8} {rest : Bytes}
    (hp : p < Index.limit) (h : b.drop p = lead :: rest) :
    glyphAt b p = .ok ((glyph lead rest).char, (glyph lead rest).bytes.length) := by
  apply glyphAt_of_window (get_of_drop_eq hp h)
  intro w hw
  exact window_of_drop_eq h hw

/-- A glyph is read the same from any piece of the buffer that holds all of its bytes. -/
theorem glyph_take {lead : UInt8} {rest : Bytes} {n : Nat}
    (h : (glyph lead rest).bytes.length ≤ n + 1) :
    glyph lead (rest.take n) = glyph lead rest := by
  unfold glyph at h ⊢
  cases hw : leadWidth? lead.toNat with
  | none => rfl
  | some w =>
      simp only [hw, List.take_take] at h ⊢
      by_cases hn : w - 1 ≤ n
      · rw [Nat.min_eq_left hn]
      · rw [Nat.min_eq_right (by omega)]
        have hshort : (rest.take n).length + 1 < w := by
          rw [List.length_take]
          omega
        rw [if_pos hshort]
        split at h
        · rename_i hs
          rw [if_pos hs]
        · rename_i hl
          rw [if_neg hl]
          cases hs : scalar? lead (rest.take (w - 1)) with
          | none => rfl
          | some c =>
              simp only [hs, List.length_cons] at h
              omega

theorem glyph_of_append {lead : UInt8} {part rest : Bytes} (hpart : part <+: rest)
    (h : (glyph lead rest).bytes.length ≤ part.length + 1) :
    glyph lead part = glyph lead rest := by
  rw [List.prefix_iff_eq_take.1 hpart]
  exact glyph_take h

/-- The first glyph and the bytes behind it make up the buffer. -/
theorem glyph_bytes_append_drop (lead : UInt8) (rest : Bytes) :
    (glyph lead rest).bytes ++ rest.drop ((glyph lead rest).bytes.length - 1) = lead :: rest := by
  have h := glyph_bytes lead rest
  generalize (glyph lead rest).bytes.length - 1 = n at h ⊢
  rw [h, List.cons_append, List.take_append_drop]

/-- A buffer cut between two glyphs: each part has its own glyphs and nothing changes. -/
theorem glyphs_eq_append {b : Bytes} {before after : List Glyph}
    (h : glyphs b = before ++ after) :
    glyphs (before.flatMap Glyph.bytes) = before ∧
      glyphs (after.flatMap Glyph.bytes) = after ∧
      b = before.flatMap Glyph.bytes ++ after.flatMap Glyph.bytes := by
  induction before generalizing b with
  | nil =>
      rw [List.nil_append] at h
      have hb : after.flatMap Glyph.bytes = b := by rw [← h, flatMap_bytes_glyphs]
      exact ⟨rfl, by rw [hb, h], hb.symm⟩
  | cons g before ih =>
      cases b with
      | nil => cases h
      | cons lead rest =>
          rw [glyphs_cons, List.cons_append, List.cons.injEq] at h
          obtain ⟨hg, htail⟩ := h
          obtain ⟨hbefore, hafter, hrest⟩ := ih htail
          have hbytes := glyph_bytes lead rest
          rw [hg] at hbytes hrest
          have hsplit : rest = (rest.take (g.bytes.length - 1) ++ before.flatMap Glyph.bytes) ++
              after.flatMap Glyph.bytes := by
            rw [List.append_assoc, ← hrest, List.take_append_drop]
          have hlen : (rest.take (g.bytes.length - 1)).length + 1 = g.bytes.length := by
            rw [← List.length_cons (a := lead), ← hbytes]
          refine ⟨?_, hafter, ?_⟩
          · rw [List.flatMap_cons, hbytes, List.cons_append, glyphs_cons]
            have hfront : glyph lead
                (rest.take (g.bytes.length - 1) ++ before.flatMap Glyph.bytes) = g := by
              rw [glyph_of_append ⟨_, hsplit.symm⟩, hg]
              rw [hg, List.length_append]
              omega
            rw [hfront, List.drop_left' (by omega), hbefore]
          · calc lead :: rest
                = lead :: (rest.take (g.bytes.length - 1) ++ before.flatMap Glyph.bytes) ++
                    after.flatMap Glyph.bytes := by rw [List.cons_append, ← hsplit]
              _ = (g :: before).flatMap Glyph.bytes ++ after.flatMap Glyph.bytes := by
                  rw [List.flatMap_cons, hbytes, List.cons_append]
                  simp

/-- The bytes up to a place between two glyphs are those of the glyphs before it. -/
theorem take_of_glyphs_eq {b : Bytes} {before after : List Glyph}
    (h : glyphs b = before ++ after) :
    b.take (before.flatMap Glyph.bytes).length = before.flatMap Glyph.bytes := by
  rw [(glyphs_eq_append h).2.2]
  exact List.take_left

theorem drop_of_glyphs_eq {b : Bytes} {before after : List Glyph}
    (h : glyphs b = before ++ after) :
    b.drop (before.flatMap Glyph.bytes).length = after.flatMap Glyph.bytes := by
  rw [(glyphs_eq_append h).2.2]
  exact List.drop_left

theorem exists_glyph_of_mem_glyphs {b : Bytes} {g : Glyph} (h : g ∈ glyphs b) :
    ∃ lead rest, glyph lead rest = g := by
  obtain ⟨before, after, hb⟩ := List.append_of_mem h
  have hglyphs := (glyphs_eq_append hb).2.1
  generalize (g :: after).flatMap Glyph.bytes = bytes at hglyphs
  cases bytes with
  | nil => cases hglyphs
  | cons lead rest =>
      rw [glyphs_cons, List.cons.injEq] at hglyphs
      exact ⟨lead, rest, hglyphs.1⟩

/-- A place in a buffer between two of its glyphs, or at one of its ends. -/
def IsBoundary (b : Bytes) (p : Nat) : Prop :=
  ∃ before after, glyphs b = before ++ after ∧ (before.flatMap Glyph.bytes).length = p

theorem isBoundary_of_glyphs_eq {b : Bytes} {before after : List Glyph}
    (h : glyphs b = before ++ after) :
    IsBoundary b (before.flatMap Glyph.bytes).length :=
  ⟨before, after, h, rfl⟩

/-- At a boundary the glyphs are those of the bytes before it and those of the bytes after it. -/
theorem isBoundary_iff {b : Bytes} {p : Nat} :
    IsBoundary b p ↔ p ≤ b.length ∧ glyphs b = glyphs (b.take p) ++ glyphs (b.drop p) := by
  constructor
  · rintro ⟨before, after, h, rfl⟩
    obtain ⟨hbefore, hafter, hb⟩ := glyphs_eq_append h
    constructor
    · rw [hb, List.length_append]
      omega
    · rw [take_of_glyphs_eq h, drop_of_glyphs_eq h, hbefore, hafter, h]
  · rintro ⟨hp, h⟩
    refine ⟨_, _, h, ?_⟩
    rw [flatMap_bytes_glyphs, List.length_take]
    omega

/-- What is read at the offset of a boundary is the glyph that begins there. -/
theorem glyphAt_of_glyphs_drop {b : Bytes} {p : Nat} {g : Glyph} {gs : List Glyph}
    (hb : b.length ≤ Index.limit) (h : glyphs (b.drop p) = g :: gs) :
    glyphAt b p = .ok (g.char, g.bytes.length) := by
  cases hdrop : b.drop p with
  | nil =>
      rw [hdrop] at h
      cases h
  | cons lead rest =>
      have hlen := congrArg List.length hdrop
      rw [List.length_drop, List.length_cons] at hlen
      rw [hdrop, glyphs_cons, List.cons.injEq] at h
      rw [glyphAt_of_drop_eq (by omega) hdrop, h.1]

end Utf8

end SexpReader
