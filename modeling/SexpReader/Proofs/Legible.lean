import Mathlib.Algebra.Order.Ring.Int
import Mathlib.Data.List.Basic
import SexpReader.Text.Quoted

/-!
# Texts that tell where they end

Messages put texts one after the other, and some of these texts are arbitrary. Such a message can
only be taken apart if its parts tell where they end. A part that is made of characters of one sort
ends where the first other one stands, as a number does behind its digits. A quoted text ends at its
second mark, since every mark inside it is escaped.

That escaping loses nothing is shown by undoing it: `Text.unescape` reads one character of a quoted
text and leaves what comes after it. Most characters below `0x7F`, the digits among them, are not
escaped at all.
-/

namespace SexpReader

theorem CodePoint.ofChar_injective : Function.Injective CodePoint.ofChar := by
  intro a b h
  exact Char.toNat_inj.1 (congrArg CodePoint.val h)

namespace Text

/-- A text made of characters of one sort ends where there is a character of another sort. -/
theorem append_inj_of_head {p : CodePoint → Prop} {t u r s : Text} (ht : ∀ c ∈ t, p c)
    (hu : ∀ c ∈ u, p c) (hr : ∀ c ∈ r.head?, ¬ p c) (hs : ∀ c ∈ s.head?, ¬ p c)
    (h : t ++ r = u ++ s) : t = u ∧ r = s := by
  induction t generalizing u with
  | nil =>
      cases u with
      | nil => exact ⟨rfl, h⟩
      | cons c u =>
          rw [List.nil_append, List.cons_append] at h
          refine (hr c ?_ (hu c List.mem_cons_self)).elim
          rw [h]
          rfl
  | cons c t ih =>
      rw [List.forall_mem_cons] at ht
      cases u with
      | nil =>
          rw [List.nil_append, List.cons_append] at h
          refine (hs c ?_ ht.1).elim
          rw [← h]
          rfl
      | cons c' u =>
          rw [List.forall_mem_cons] at hu
          rw [List.cons_append, List.cons_append, List.cons.injEq] at h
          obtain ⟨rfl, htail⟩ := ih ht.2 hu.2 h.2
          exact ⟨by rw [h.1], htail⟩

/-! ## Numbers -/

/-- The characters of which numbers are written. -/
def IsNumeral (c : CodePoint) : Prop :=
  c = .ofChar '-' ∨ ∃ x : Char, x.isDigit = true ∧ c = .ofChar x

theorem isNumeral_ofChar_iff {x : Char} :
    IsNumeral (.ofChar x) ↔ x = '-' ∨ x.isDigit = true := by
  rw [IsNumeral, CodePoint.ofChar_injective.eq_iff]
  refine or_congr_right ⟨?_, fun hx => ⟨x, hx, rfl⟩⟩
  rintro ⟨y, hy, hxy⟩
  rw [CodePoint.ofChar_injective hxy]
  exact hy

theorem isDigit_of_mem_ofNat {n : Nat} {c : CodePoint} (h : c ∈ ofNat n) :
    ∃ x : Char, x.isDigit = true ∧ c = .ofChar x := by
  obtain ⟨x, hx, rfl⟩ := List.mem_map.1 h
  exact ⟨x, Nat.isDigit_of_mem_toDigits (by decide) (by decide) hx, rfl⟩

theorem ofNat_injective : Function.Injective ofNat := by
  intro m n h
  have hdigits := List.map_injective_iff.2 CodePoint.ofChar_injective h
  rw [← Nat.ofDigitChars_ten_toDigits (n := m), hdigits, Nat.ofDigitChars_ten_toDigits]

theorem ofNat_ne_minus_cons (n : Nat) (t : Text) : ofNat n ≠ .ofChar '-' :: t := by
  intro h
  obtain ⟨x, hx, hminus⟩ := isDigit_of_mem_ofNat (h ▸ List.mem_cons_self)
  cases CodePoint.ofChar_injective hminus
  cases hx

theorem ofInt_injective : Function.Injective ofInt := by
  intro m n h
  match m, n with
  | .ofNat m, .ofNat n => rw [ofNat_injective h]
  | .ofNat m, .negSucc n => exact (ofNat_ne_minus_cons _ _ h).elim
  | .negSucc m, .ofNat n => exact (ofNat_ne_minus_cons _ _ h.symm).elim
  | .negSucc m, .negSucc n =>
      have hsucc := ofNat_injective (List.cons.inj h).2
      rw [Nat.succ.inj hsucc]

theorem isNumeral_of_mem_ofInt {n : Int} {c : CodePoint} (h : c ∈ ofInt n) : IsNumeral c := by
  match n with
  | .ofNat n => exact .inr (isDigit_of_mem_ofNat h)
  | .negSucc n =>
      rcases List.mem_cons.1 h with rfl | h
      · exact .inl rfl
      · exact .inr (isDigit_of_mem_ofNat h)

/-- A number ends where there is something else than a digit. -/
theorem ofInt_append_inj {m n : Int} {r s : Text} (hr : ∀ c ∈ r.head?, ¬ IsNumeral c)
    (hs : ∀ c ∈ s.head?, ¬ IsNumeral c) (h : ofInt m ++ r = ofInt n ++ s) : m = n ∧ r = s := by
  obtain ⟨hnumber, hrest⟩ := append_inj_of_head (fun _ => isNumeral_of_mem_ofInt)
    (fun _ => isNumeral_of_mem_ofInt) hr hs h
  exact ⟨ofInt_injective hnumber, hrest⟩

/-! ## Quoted texts -/

open CodePoint

/-- The number that a hexadecimal digit stands for. -/
def digitValue (c : CodePoint) : Nat := if c.val < 0x3A then c.val - 0x30 else c.val - 0x57

/-- The number that hexadecimal digits stand for. -/
def readHex (t : Text) : Nat := t.foldl (fun n c => 16 * n + digitValue c) 0

theorem digitValue_hexDigit (n : Nat) : digitValue (hexDigit n) = n % 16 := by
  unfold digitValue hexDigit
  dsimp only
  split <;> split at * <;> omega

theorem readHex_hex (w n : Nat) : readHex (hex w n) = n % 16 ^ w := by
  induction w generalizing n with
  | zero => exact (Nat.mod_one n).symm
  | succ w ih =>
      have hfold : readHex (hex (w + 1) n) =
          16 * readHex (hex w (n / 16)) + digitValue (hexDigit n) := by
        rw [readHex, hex, List.foldl_append]
        rfl
      rw [hfold, ih, digitValue_hexDigit, Nat.pow_succ', Nat.mod_mul]
      omega

/-- The number of digits that a letter behind a backslash announces. -/
def hexWidth? (c : CodePoint) : Option Nat :=
  if c = .ofChar 'x' then some 2
  else if c = .ofChar 'u' then some 4
  else if c = .ofChar 'U' then some 8
  else none

/-- Reads what comes after a backslash. -/
def unescapeLetter (c : CodePoint) (rest : Text) : Option (CodePoint × Text) :=
  if c = .ofChar 'n' then some (.ofChar '\n', rest)
  else if c = .ofChar 'r' then some (.ofChar '\r', rest)
  else if c = .ofChar 't' then some (.ofChar '\t', rest)
  else match hexWidth? c with
    | none => some (c, rest)
    | some w =>
      if h : readHex (rest.take w) < 0x110000 then some (⟨_, h⟩, rest.drop w) else none

/-- Reads one character of a quoted text, and leaves what comes after it. -/
def unescape : Text → Option (CodePoint × Text)
  | [] => none
  | c :: rest =>
    if c = backslash then
      match rest with
      | [] => none
      | c :: rest => unescapeLetter c rest
    else some (c, rest)

theorem unescapeLetter_hex {c letter : CodePoint} {w : Nat} (hw : hexWidth? letter = some w)
    (hc : c.val < 16 ^ w) (rest : Text) :
    unescapeLetter letter (hex w c.val ++ rest) = some (c, rest) := by
  have hn : letter ≠ .ofChar 'n' := by
    rintro rfl
    cases hw
  have hr : letter ≠ .ofChar 'r' := by
    rintro rfl
    cases hw
  have ht : letter ≠ .ofChar 't' := by
    rintro rfl
    cases hw
  have hlen : (hex w c.val).length = w := length_hex w c.val
  have htake : (hex w c.val ++ rest).take w = hex w c.val := List.take_left' hlen
  have hdrop : (hex w c.val ++ rest).drop w = rest := List.drop_left' hlen
  have hval : readHex (hex w c.val) = c.val := by rw [readHex_hex, Nat.mod_eq_of_lt hc]
  unfold unescapeLetter
  rw [if_neg hn, if_neg hr, if_neg ht, hw]
  simp only [htake, hdrop, hval]
  rw [dif_pos c.isLt]

/-- The number of a hidden character has as many digits as its letter announces. -/
theorem exists_numericEscape (c : CodePoint) : ∃ letter w, hexWidth? letter = some w ∧
    c.val < 16 ^ w ∧ c.numericEscape = backslash :: letter :: hex w c.val := by
  have hlt := c.isLt
  unfold numericEscape
  split
  · exact ⟨.ofChar 'x', 2, rfl, by omega, rfl⟩
  split
  · exact ⟨.ofChar 'u', 4, rfl, by omega, rfl⟩
  · exact ⟨.ofChar 'U', 8, rfl, by omega, rfl⟩

theorem unescape_numericEscape (c : CodePoint) (rest : Text) :
    unescape (c.numericEscape ++ rest) = some (c, rest) := by
  obtain ⟨letter, w, hw, hc, hescape⟩ := exists_numericEscape c
  rw [hescape]
  exact unescapeLetter_hex hw hc rest

/-- The two marks that texts are quoted with. -/
def IsMark (c : CodePoint) : Prop := c = apostrophe ∨ c = doubleQuote

theorem isMark_quoteMark (t : Text) : IsMark t.quoteMark := by
  unfold quoteMark
  split
  · exact .inr rfl
  · exact .inl rfl

/-- Escaping a character can be undone, whatever comes after it. -/
theorem unescape_escaped {mark : CodePoint} (hmark : IsMark mark) (c : CodePoint) (rest : Text) :
    unescape (escaped mark c ++ rest) = some (c, rest) := by
  unfold escaped
  split
  · rename_i hc
    have hc' : c = apostrophe ∨ c = doubleQuote ∨ c = backslash := by
      rcases hc with rfl | rfl
      · exact hmark.imp_right .inl
      · exact .inr (.inr rfl)
    rcases hc' with rfl | rfl | rfl <;> rfl
  · rename_i hc
    rw [not_or] at hc
    split
    · rename_i hval
      cases (CodePoint.ext hval : c = .ofChar '\n')
      rfl
    split
    · rename_i hval
      cases (CodePoint.ext hval : c = .ofChar '\r')
      rfl
    split
    · rename_i hval
      cases (CodePoint.ext hval : c = .ofChar '\t')
      rfl
    split
    · exact if_neg hc.2
    · exact unescape_numericEscape c rest

/-- A character stands for itself, or a backslash announces how it is written. -/
theorem escaped_cases (mark c : CodePoint) :
    (∃ t, escaped mark c = backslash :: t) ∨ escaped mark c = [c] ∧ c ≠ mark := by
  unfold escaped
  split
  · exact .inl ⟨_, rfl⟩
  · rename_i hc
    split
    · exact .inl ⟨_, rfl⟩
    split
    · exact .inl ⟨_, rfl⟩
    split
    · exact .inl ⟨_, rfl⟩
    split
    · exact .inr ⟨rfl, fun h => hc (.inl h)⟩
    · obtain ⟨letter, w, -, -, hescape⟩ := exists_numericEscape c
      exact .inl ⟨_, hescape⟩

/-- An escaped character never looks like the mark that ends the text. -/
theorem escaped_append_ne_mark_cons {mark : CodePoint} (hmark : IsMark mark) (c : CodePoint)
    (r s : Text) : escaped mark c ++ r ≠ mark :: s := by
  intro h
  obtain ⟨t, hescaped⟩ | ⟨hescaped, hne⟩ := escaped_cases mark c
  · rw [hescaped] at h
    have hbackslash : backslash ≠ mark := by
      rcases hmark with rfl | rfl <;> decide
    exact hbackslash (List.cons.inj h).1
  · rw [hescaped] at h
    exact hne (List.cons.inj h).1

theorem flatMap_escaped_append_inj {mark : CodePoint} (hmark : IsMark mark) {t u r s : Text}
    (h : t.flatMap (escaped mark) ++ mark :: r = u.flatMap (escaped mark) ++ mark :: s) :
    t = u ∧ r = s := by
  induction t generalizing u with
  | nil =>
      cases u with
      | nil => exact ⟨rfl, (List.cons.inj h).2⟩
      | cons c u =>
          rw [List.flatMap_cons, List.append_assoc] at h
          exact (escaped_append_ne_mark_cons hmark c _ _ h.symm).elim
  | cons c t ih =>
      cases u with
      | nil =>
          rw [List.flatMap_cons, List.append_assoc] at h
          exact (escaped_append_ne_mark_cons hmark c _ _ h).elim
      | cons c' u =>
          rw [List.flatMap_cons, List.flatMap_cons, List.append_assoc, List.append_assoc] at h
          have hread := congrArg unescape h
          rw [unescape_escaped hmark, unescape_escaped hmark, Option.some.injEq,
            Prod.mk.injEq] at hread
          obtain ⟨rfl, hrest⟩ := ih hread.2
          exact ⟨by rw [hread.1], hrest⟩

/-- Of the characters from the space up to the tilde, only the mark and the backslash are escaped. -/
theorem escaped_of_ascii {c : CodePoint} (hlow : 0x20 ≤ c.val) (hhigh : c.val < 0x7F)
    (hmark : c ≠ apostrophe) (hslash : c ≠ backslash) : escaped apostrophe c = [c] := by
  have hhidden : ∀ n < 0x7F, 0x20 ≤ n → inRanges n hiddenRanges = false := by decide
  have hprintable : c.isPrintable = true := by
    rw [isPrintable, hhidden c.val hhigh hlow]
    rfl
  rw [escaped, if_neg (not_or.2 ⟨hmark, hslash⟩), if_neg (by omega), if_neg (by omega),
    if_neg (by omega), if_pos hprintable]

theorem escaped_of_isNumeral {c : CodePoint} (h : IsNumeral c) : escaped apostrophe c = [c] := by
  rcases h with rfl | ⟨x, hx, rfl⟩
  · rfl
  · have hdigit : 0x30 ≤ x.toNat ∧ x.toNat ≤ 0x39 := by
      simpa [Char.isDigit, UInt32.le_iff_toNat_le] using hx
    have hlow : 0x20 ≤ (ofChar x).val := Nat.le_trans (by decide) hdigit.1
    have hhigh : (ofChar x).val < 0x7F := Nat.lt_of_le_of_lt hdigit.2 (by decide)
    refine escaped_of_ascii hlow hhigh ?_ ?_
    · intro h
      have hval : x.toNat = 0x27 := congrArg CodePoint.val h
      omega
    · intro h
      have hval : x.toNat = 0x5C := congrArg CodePoint.val h
      omega

/-- A text in which nothing is escaped is quoted as it stands. -/
theorem quoted_of_escaped {t : Text} (h : ∀ c ∈ t, escaped apostrophe c = [c]) :
    t.quoted = "'" ++ t ++ "'" := by
  have hmark : t.quoteMark = apostrophe := by
    refine if_neg fun hquote => ?_
    cases h _ hquote.1
  have hflat : t.flatMap (escaped apostrophe) = t := by
    rw [List.flatMap_congr h, List.flatMap_singleton']
  rw [quoted, hmark, hflat]
  rfl

theorem quoted_append (t r : Text) :
    t.quoted ++ r = t.quoteMark :: (t.flatMap (escaped t.quoteMark) ++ t.quoteMark :: r) := by
  rw [quoted, List.cons_append, List.cons_append, List.append_assoc, List.singleton_append]

/-- A quoted text tells what it is and where it ends. -/
theorem quoted_append_inj {t u r s : Text} (h : t.quoted ++ r = u.quoted ++ s) :
    t = u ∧ r = s := by
  rw [quoted_append, quoted_append, List.cons.injEq] at h
  obtain ⟨hmark, hbody⟩ := h
  rw [← hmark] at hbody
  exact flatMap_escaped_append_inj (isMark_quoteMark t) hbody

end Text

end SexpReader
