import Mathlib.Algebra.Order.Ring.Int
import SexpReader.Proofs.TypedReads

/-!
# Walking over a text

A cursor over a text stands in front of the character with the index `k` if the bytes behind it are
the UTF-8 form of the first `k` characters. At the start it stands in front of the first one, and
whatever is done with whole characters leaves it in front of some character that is no earlier, or
at the end. So no character is ever split: what is read in front of the character with the index `k`
is this character.

Operations with characters and parsing are the ones that move over whole characters only. Both move
over glyphs, and in a text without surrogates the glyphs ahead are the characters ahead.
-/

namespace SexpReader

/-- The operation moves over whole characters or not at all. -/
def Operation.IsCharacterwise : Operation → Prop
  | .advance _ _ => False
  | .take w | .accept w _ => w.Names .char
  | _ => True

namespace Cursor

/-- The cursor stands in the text `t` in front of the character with the index `k`, or at the end
if there is none. -/
structure InFront (t : Text) (k : Nat) (c : Cursor) : Prop where
  buffer : c.buffer = t.flatMap Utf8.encode
  le : k ≤ t.length
  position : c.mark.position = ((t.take k).flatMap Utf8.encode).length

/-- Takes characters until none is left. -/
def takeAll (c : Cursor) : Descent (List Value × Cursor) := do
  if c.isEmpty then return ([], c)
  else
    let (char, c') ← .of (c.take (.kind .char))
    let (chars, c'') ← c' |>.takeAll
    return (char :: chars, c'')
partial_fixpoint

variable {t : Text} {k : Nat} {c : Cursor} {w : Want}

theorem inFront_ofBytes (t : Text) : (ofBytes (t.flatMap Utf8.encode)).InFront t 0 :=
  ⟨rfl, Nat.zero_le _, rfl⟩

theorem InFront.rest (h : c.InFront t k) : c.rest = (t.drop k).flatMap Utf8.encode := by
  rw [Cursor.rest, h.buffer, h.position]
  conv_lhs => rw [← List.take_append_drop k t, List.flatMap_append]
  rw [List.take_append_drop, List.drop_left]

theorem InFront.position_le (h : c.InFront t k) : c.mark.position ≤ c.size := by
  rw [h.position, size, h.buffer, ← List.take_append_drop k t, List.flatMap_append,
    List.length_append, List.take_append_drop]
  exact Nat.le_add_right _ _

/-- What lies ahead are the characters from the index `k` on. -/
theorem InFront.faces (h : c.InFront t k) (ht : ∀ x ∈ t, x.isSurrogate = false) :
    c.Faces (Utf8.written (t.drop k)) := by
  refine ⟨h.position_le, ?_⟩
  rw [h.rest]
  exact Utf8.glyphs_flatMap_encode fun x hx => ht x (List.mem_of_mem_drop hx)

/-- Behind some of the glyphs ahead, a cursor stands in front of a later character. -/
theorem InFront.beyond (h : c.InFront t k) {before after : List Glyph}
    (hsplit : Utf8.written (t.drop k) = before ++ after) {m : Mark}
    (hm : m.position = c.mark.position + (before.flatMap Glyph.bytes).length) :
    InFront t (k + before.length) ⟨c.buffer, m⟩ := by
  have hbefore : before = Utf8.written ((t.drop k).take before.length) := by
    rw [Utf8.written, List.map_take, ← Utf8.written, hsplit, List.take_left]
  have hle : k + before.length ≤ t.length := by
    have hlen := congrArg List.length hsplit
    have hk := h.le
    rw [Utf8.written, List.length_map, List.length_drop, List.length_append] at hlen
    omega
  refine ⟨h.buffer, hle, ?_⟩
  have hbytes : before.flatMap Glyph.bytes =
      ((t.drop k).take before.length).flatMap Utf8.encode := by
    rw [← Utf8.flatMap_bytes_written, ← hbefore]
  rw [hm, hbytes, h.position, List.take_add, List.flatMap_append, List.length_append]

/-- The position tells the index. -/
theorem InFront.unique {j : Nat} (h : c.InFront t k) (h' : c.InFront t j)
    (ht : ∀ x ∈ t, x.isSurrogate = false) : j = k := by
  have hlen := congrArg List.length ((h'.faces ht).glyphs.symm.trans (h.faces ht).glyphs)
  have hj := h'.le
  have hk := h.le
  rw [Utf8.written, Utf8.written, List.length_map, List.length_map, List.length_drop,
    List.length_drop] at hlen
  omega

theorem InFront.isEmpty_iff (h : c.InFront t k) (ht : ∀ x ∈ t, x.isSurrogate = false) :
    c.isEmpty = true ↔ k = t.length := by
  have hfaces := h.faces ht
  cases hdrop : t.drop k with
  | nil =>
      rw [hdrop] at hfaces
      exact iff_of_true hfaces.isEmpty_nil (Nat.le_antisymm h.le (List.drop_eq_nil_iff.1 hdrop))
  | cons x rest =>
      rw [hdrop, Utf8.written_cons] at hfaces
      refine iff_of_false (by rw [hfaces.isEmpty_cons]; decide) ?_
      rintro rfl
      rw [List.drop_length] at hdrop
      cases hdrop

/-! ## Reading a character -/

/-- The character with the index is what is found. -/
theorem InFront.look_of_some (h : c.InFront t k) (ht : ∀ x ∈ t, x.isSurrogate = false)
    (hw : w.Names .char) {x : CodePoint} (hx : t[k]? = some x) :
    c.look w = .ok ⟨.text [x], (Utf8.encode x).length, 1⟩ := by
  have hfaces := h.faces ht
  obtain ⟨hlt, rfl⟩ := List.getElem?_eq_some_iff.1 hx
  rw [List.drop_eq_getElem_cons hlt, Utf8.written_cons] at hfaces
  rw [look_of_names hw]
  exact hfaces.look

theorem InFront.look_of_length (h : c.InFront t t.length) (hw : w.Names .char) :
    c.look w = .error (.boundary c.mark.position 1 c.size) := by
  have hrest := h.rest
  rw [List.drop_length] at hrest
  have hglyph : c.glyph? = none := by
    rw [glyph?, hrest]
    rfl
  rw [look_of_names hw, lookKind, lookChar, hglyph]

/-- Looking for a character fails at the end of the text and nowhere else. -/
theorem InFront.look_cases (h : c.InFront t k) (ht : ∀ x ∈ t, x.isSurrogate = false)
    (hw : w.Names .char) :
    (∃ x, t[k]? = some x ∧ k < t.length ∧
      c.look w = .ok ⟨.text [x], (Utf8.encode x).length, 1⟩) ∨
      k = t.length ∧ c.look w = .error (.boundary c.mark.position 1 c.size) := by
  rcases Nat.lt_or_eq_of_le h.le with hlt | rfl
  · have hx := List.getElem?_eq_getElem hlt
    exact .inl ⟨_, hx, hlt, h.look_of_some ht hw hx⟩
  · exact .inr ⟨rfl, h.look_of_length hw⟩

/-- Moving over the character leads in front of the next one. -/
theorem InFront.moved (h : c.InFront t k) {x : CodePoint} (hx : t[k]? = some x) :
    (c.moved (Utf8.encode x).length 1).InFront t (k + 1) := by
  obtain ⟨hlt, rfl⟩ := List.getElem?_eq_some_iff.1 hx
  have hsplit : Utf8.written (t.drop k) = [⟨t[k], Utf8.encode t[k]⟩] ++
      Utf8.written (t.drop (k + 1)) := by
    rw [List.drop_eq_getElem_cons hlt, Utf8.written_cons]
    rfl
  refine h.beyond hsplit ?_
  rw [List.flatMap_singleton]
  rfl

/-! ## One operation -/

/-- Parsing moves over glyphs. -/
theorem InFront.parse (h : c.InFront t k) (ht : ∀ x ∈ t, x.isSurrogate = false) (d : Dialect)
    (tracing : Bool) : ∃ k', k ≤ k' ∧ (c.parse d tracing).cursor.InFront t k' := by
  obtain ⟨before, after, hsplit, hmark⟩ :=
    Reader.exists_mark_run d tracing c.mark (Utf8.glyphs c.rest)
  rw [← Reader.mark_readGlyphs] at hmark
  rw [(h.faces ht).glyphs] at hsplit
  refine ⟨k + before.length, Nat.le_add_right _ _, h.beyond hsplit ?_⟩
  rw [hmark, Mark.position_after]

/-- No operation with characters splits a character or goes back. -/
theorem InFront.perform (h : c.InFront t k) (ht : ∀ x ∈ t, x.isSurrogate = false)
    {op : Operation} (hop : op.IsCharacterwise) :
    ∃ k', k ≤ k' ∧ (c.perform op).2.InFront t k' := by
  cases op with
  | advance => exact hop.elim
  | take w =>
      rw [Cursor.perform, take_eq_map]
      obtain ⟨x, hx, -, hlook⟩ | ⟨-, hlook⟩ := h.look_cases ht hop
      · rw [hlook]
        exact ⟨k + 1, Nat.le_succ k, h.moved hx⟩
      · rw [hlook]
        exact ⟨k, Nat.le_refl k, h⟩
  | accept w v =>
      rw [Cursor.perform, accept_eq_map]
      obtain ⟨x, hx, -, hlook⟩ | ⟨-, hlook⟩ := h.look_cases ht hop
      · rw [hlook]
        simp only [Except.map, settle]
        split
        · exact ⟨k + 1, Nat.le_succ k, h.moved hx⟩
        · exact ⟨k, Nat.le_refl k, h⟩
      · rw [hlook]
        exact ⟨k, Nat.le_refl k, h⟩
  | get w =>
      refine ⟨k, Nat.le_refl k, ?_⟩
      rw [Cursor.perform]
      cases c.get w <;> exact h
  | expect w v =>
      refine ⟨k, Nat.le_refl k, ?_⟩
      rw [Cursor.perform]
      cases c.expect w v <;> exact h
  | parse tokens tracing =>
      rw [Cursor.perform]
      cases Dialect.ofTokens tokens with
      | error e => exact ⟨k, Nat.le_refl k, h⟩
      | ok d => exact h.parse ht d tracing
  | _ => exact ⟨k, Nat.le_refl k, ⟨h.buffer, h.le, h.position⟩⟩

/-! ## All of them -/

theorem InFront.reached (h : c.InFront t k) (ht : ∀ x ∈ t, x.isSurrogate = false)
    {ops : List Operation} (hops : ∀ op ∈ ops, op.IsCharacterwise) :
    ∃ k', k ≤ k' ∧ (c.reached ops).InFront t k' := by
  induction ops generalizing c k with
  | nil => exact ⟨k, Nat.le_refl k, h⟩
  | cons op ops ih =>
      obtain ⟨k₁, hk₁, h₁⟩ := h.perform ht (hops op List.mem_cons_self)
      obtain ⟨k₂, hk₂, h₂⟩ := ih h₁ fun op hop => hops op (List.mem_cons_of_mem _ hop)
      exact ⟨k₂, hk₁.trans hk₂, h₂⟩

/-- What is taken are the characters ahead, each of them one column wide. -/
theorem InFront.takeAll (h : c.InFront t k) (ht : ∀ x ∈ t, x.isSurrogate = false) :
    c.takeAll = pure ((t.drop k).map fun x => .text [x],
      ⟨c.buffer, ⟨c.size, c.mark.line, c.mark.column + (t.drop k).length⟩⟩) := by
  induction hrest : t.drop k generalizing c k with
  | nil =>
      have hk : k = t.length := Nat.le_antisymm h.le (List.drop_eq_nil_iff.1 hrest)
      have hempty := (h.isEmpty_iff ht).2 hk
      have hposition : c.mark.position = c.size := beq_iff_eq.1 hempty
      rw [Cursor.takeAll, if_pos hempty, ← hposition, List.length_nil, Int.natCast_zero,
        Int.add_zero]
      rfl
  | cons x rest ih =>
      have hx : t[k]? = some x := by
        rw [← List.head?_drop, hrest]
        rfl
      have hlt : k < t.length := (List.getElem?_eq_some_iff.1 hx).1
      have hlook : c.look (.kind .char) = .ok ⟨.text [x], (Utf8.encode x).length, 1⟩ :=
        h.look_of_some ht (.inl rfl) hx
      have hempty : c.isEmpty ≠ true := (h.isEmpty_iff ht).not.2 (Nat.ne_of_lt hlt)
      have hnext := ih (h.moved hx) (by rw [← List.tail_drop, hrest]; rfl)
      have hcolumn : c.mark.column + 1 + rest.length = c.mark.column + (x :: rest).length := by
        rw [List.length_cons]
        omega
      rw [Cursor.takeAll, if_neg hempty, take_eq_map, hlook, Except.map, Descent.of_ok, pure_bind]
      dsimp only
      rw [Int.natCast_one, hnext, pure_bind, ← hcolumn]
      rfl

/-- Reading a text without surrogates character by character. Whatever is done with characters, and
wherever something is parsed in between, the cursor stands in front of a character or at the end,
and it does not go back. The character that it stands in front of is the one that is read, and at
the end, and only there, there is none to be read. If characters are taken until none is left, they
are those of the text, in their order, and every one of them is one column wide. -/
theorem walks_by_code_points {t : Text} (ht : ∀ x ∈ t, x.isSurrogate = false) :
    ∃ c₀, ofText t = .ok c₀ ∧
      (∀ before more : List Operation, (∀ op ∈ before ++ more, op.IsCharacterwise) →
        ∃ k k', k ≤ k' ∧ (c₀.reached before).InFront t k ∧
          (c₀.reached (before ++ more)).InFront t k') ∧
      (∀ c k w, InFront t k c → w.Names .char →
        (∀ j, c.InFront t j → j = k) ∧
        (∀ x, t[k]? = some x → c.get w = .ok (.text [x])) ∧
        (∀ e, c.get w = .error e ↔
          k = t.length ∧ e = .boundary c.mark.position 1 c.size) ∧
        (c.isEmpty = true ↔ k = t.length)) ∧
      c₀.takeAll = pure (t.map fun x => .text [x], ⟨c₀.buffer, ⟨c₀.size, 1, 1 + t.length⟩⟩) ∧
      c₀.size = (t.map fun x => Utf8.width x.val).sum := by
  refine ⟨ofBytes (t.flatMap Utf8.encode), ?_, ?_, ?_, ?_, ?_⟩
  · rw [ofText, Utf8.encodeText_eq_ok_iff.2 ⟨ht, rfl⟩]
    rfl
  · intro before more hops
    obtain ⟨hbefore, hmore⟩ := List.forall_mem_append.1 hops
    obtain ⟨k, -, hk⟩ := (inFront_ofBytes t).reached ht hbefore
    obtain ⟨k', hle, hk'⟩ := hk.reached ht hmore
    refine ⟨k, k', hle, hk, ?_⟩
    rw [Cursor.reached, List.foldl_append]
    exact hk'
  · intro c k w h hw
    refine ⟨fun j hj => h.unique hj ht, ?_, ?_, h.isEmpty_iff ht⟩
    · intro x hx
      rw [get_eq_map, h.look_of_some ht hw hx]
      rfl
    · intro e
      rw [get_eq_map]
      obtain ⟨x, -, hlt, hlook⟩ | ⟨hk, hlook⟩ := h.look_cases ht hw
      · rw [hlook]
        exact iff_of_false (by simp [Except.map]) fun hend => Nat.ne_of_lt hlt hend.1
      · rw [hlook, and_iff_right hk, eq_comm (a := e)]
        exact Iff.of_eq (Except.error.injEq _ _)
  · have htake := (inFront_ofBytes t).takeAll ht
    rw [List.drop_zero] at htake
    exact htake
  · rw [size, ofBytes, List.length_flatMap]
    simp only [Utf8.length_encode]

/-- Characters of one, three and four bytes. After the first of them is taken, the rest is parsed,
which stops in front of a bracket too many. -/
theorem walks_over_wide_characters :
    (∀ x ∈ ("€ (𝄞)) " : Text), x.isSurrogate = false) ∧
      ∃ c₀, ofText "€ (𝄞)) " = .ok c₀ ∧
        (∃ k, (c₀.reached [.take (.named "char"), .parse {} true]).InFront "€ (𝄞)) " k) ∧
        c₀.takeAll = pure (("€ (𝄞)) " : Text).map fun x => .text [x],
          ⟨c₀.buffer, ⟨c₀.size, 1, 8⟩⟩) := by
  have hscalar : ∀ x ∈ ("€ (𝄞)) " : Text), x.isSurrogate = false := by decide
  obtain ⟨c₀, hc₀, hreached, -, htake, -⟩ := walks_by_code_points hscalar
  obtain ⟨-, k, -, -, hk⟩ := hreached [] [.take (.named "char"), .parse {} true] (by
    rw [List.nil_append, List.forall_mem_cons, List.forall_mem_singleton]
    exact ⟨.inr rfl, trivial⟩)
  exact ⟨hscalar, c₀, hc₀, ⟨k, hk⟩, htake⟩

end Cursor

end SexpReader
