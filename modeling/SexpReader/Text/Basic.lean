/-!
# Code points and texts

A `Text` is a list of code points. A code point is any number below `0x110000`, surrogates
included, so a `Text` can hold what no sequence of Unicode scalar values can; the encoder in
`SexpReader.Utf8.Encode` is where a surrogate is refused.

String literals coerce to texts, and `Text.ofNat` and `Text.ofInt` write numbers in decimal.
-/

namespace SexpReader

/-- A Unicode code point. Surrogates are code points, numbers from `0x110000` on are not. -/
structure CodePoint where
  val : Nat
  isLt : val < 0x110000
deriving DecidableEq

/-- A text is a list of code points, and its length counts code points. -/
abbrev Text := List CodePoint

namespace CodePoint

instance : Inhabited CodePoint := ⟨⟨0, by decide⟩⟩

instance : Hashable CodePoint := ⟨fun c => hash c.val⟩

@[ext] theorem ext {a b : CodePoint} (h : a.val = b.val) : a = b := by
  cases a; cases b; simp_all

/-- The code point of a character. -/
def ofChar (c : Char) : CodePoint :=
  ⟨c.toNat, by
    have h : c.toNat < 0xD800 ∨ 0xDFFF < c.toNat ∧ c.toNat < 0x110000 := c.valid
    omega⟩

@[simp] theorem val_ofChar (c : Char) : (ofChar c).val = c.toNat := rfl

/-- Surrogates are the code points `D800` to `DFFF`; no encoding form may hold one. -/
def isSurrogate (c : CodePoint) : Bool :=
  0xD800 ≤ c.val && c.val ≤ 0xDFFF

/-- The code point `n`, if `n` is a Unicode scalar value. -/
def ofScalar? (n : Nat) : Option CodePoint :=
  if h : n < 0x110000 then
    if isSurrogate ⟨n, h⟩ then none else some ⟨n, h⟩
  else none

theorem ofScalar?_eq_some_iff {n : Nat} {c : CodePoint} :
    ofScalar? n = some c ↔ c.val = n ∧ c.isSurrogate = false := by
  obtain ⟨v, hv⟩ := c
  unfold ofScalar?
  split
  · split
    · constructor
      · intro h; cases h
      · rintro ⟨rfl, h⟩; simp_all
    · constructor
      · intro h; cases h; exact ⟨rfl, by simp_all⟩
      · rintro ⟨rfl, _⟩; rfl
  · constructor
    · intro h; cases h
    · rintro ⟨rfl, _⟩; contradiction

/-- The character that stands for bytes that could not be decoded. -/
def replacement : CodePoint := ⟨0xFFFD, by decide⟩

/-- The character with this code point; a surrogate has none and gives `U+FFFD`. -/
def toChar (c : CodePoint) : Char :=
  if c.isSurrogate then Char.ofNat 0xFFFD else Char.ofNat c.val

end CodePoint

namespace Text

/-- The code points of a string. -/
def ofString (s : String) : Text := s.toList.map CodePoint.ofChar

instance : Coe String Text := ⟨ofString⟩

/-- The string with these code points, surrogates replaced. -/
def toString (t : Text) : String := String.ofList (t.map CodePoint.toChar)

/-- A number in decimal. -/
def ofNat (n : Nat) : Text := (Nat.toDigits 10 n).map CodePoint.ofChar

/-- A number in decimal, with a minus sign if it is negative. -/
def ofInt : Int → Text
  | .ofNat n => ofNat n
  | .negSucc n => CodePoint.ofChar '-' :: ofNat (n + 1)

/-- Puts `separator` between the texts. -/
def join (separator : Text) : List Text → Text
  | [] => []
  | [t] => t
  | t :: u :: ts => t ++ separator ++ join separator (u :: ts)

/-- Cuts a text at every `separator`. -/
def split (separator : CodePoint) : Text → List Text
  | [] => [[]]
  | c :: rest =>
    if c = separator then [] :: split separator rest
    else match split separator rest with
      | [] => [[c]]
      | part :: parts => (c :: part) :: parts

theorem split_ne_nil (separator : CodePoint) (t : Text) : split separator t ≠ [] := by
  cases t with
  | nil => simp [split]
  | cons c rest =>
    unfold split
    split
    · simp
    · split <;> simp

@[simp] theorem join_nil (s : Text) : join s [] = [] := rfl

@[simp] theorem join_singleton (s t : Text) : join s [t] = t := rfl

@[simp] theorem join_cons_cons (s t u : Text) (ts : List Text) :
    join s (t :: u :: ts) = t ++ s ++ join s (u :: ts) := rfl

end Text

end SexpReader
