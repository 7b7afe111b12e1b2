import SexpReader.Text.Quoted

/-!
# Dialects

A `Dialect` says which characters are blanks, which one ends a line, and which two enclose a list.
Reading uses a dialect only through `Dialect.classify`. The classes are tried in a fixed order, so
a dialect in which one character has two jobs is still unambiguous: a blank is never a bracket,
and an opening bracket is never a closing one.

A dialect is made from tokens by `Dialect.ofTokens`, which refuses every token that is not a
single character.
-/

namespace SexpReader

/-- The part that a character plays. -/
inductive CharClass where
  | newline
  | blank
  | opening
  | closing
  | constituent
deriving DecidableEq

/-- Newlines are blanks too. -/
def CharClass.isBlank : CharClass → Bool
  | .newline => true
  | .blank => true
  | _ => false

theorem CharClass.isBlank_iff {k : CharClass} :
    k.isBlank = true ↔ k = .newline ∨ k = .blank := by
  cases k <;> simp [isBlank]

/-- The characters with a special part. -/
structure Dialect where
  newline : CodePoint
  tab : CodePoint
  space : CodePoint
  opening : CodePoint
  closing : CodePoint
  /-- Further blanks. -/
  extra : List CodePoint
deriving DecidableEq

/-- What a dialect is made from: each token should be a single character. -/
structure Tokens where
  newline : Text := "\n"
  tab : Text := "\t"
  space : Text := " "
  opening : Text := "("
  closing : Text := ")"
  extra : List Text := ["\r", "\x0b", "\x0c"]
deriving DecidableEq

namespace Tokens

/-- All tokens, in the order in which they are named in messages. -/
def toList (t : Tokens) : List Text :=
  [t.newline, t.tab, t.space, t.opening, t.closing] ++ t.extra

/-- The tokens that are not single characters. -/
def bad (t : Tokens) : List Text := t.toList.filter fun token => token.length != 1

/-- Only newline, tab and space are blanks. -/
def strict : Tokens := { extra := [] }

end Tokens

namespace Dialect

/-- The tokens that kept a dialect from being made. -/
structure Error where
  bad : List Text
deriving DecidableEq

/-- Lists the tokens that are not single characters. -/
def Error.message (e : Error) : Text :=
  "tokens must be single charachters: " ++ Text.bracketed e.bad

/-- The dialect with these tokens. -/
def ofTokens (t : Tokens) : Except Error Dialect :=
  match t.newline, t.tab, t.space, t.opening, t.closing, t.bad with
  | [newline], [tab], [space], [opening], [closing], [] =>
    .ok { newline, tab, space, opening, closing, extra := t.extra.flatten }
  | _, _, _, _, _, bad => .error ⟨bad⟩

/-- The usual dialect: carriage return, vertical tab and form feed are blanks too. -/
def standard : Dialect where
  newline := .ofChar '\n'
  tab := .ofChar '\t'
  space := .ofChar ' '
  opening := .ofChar '('
  closing := .ofChar ')'
  extra := [.ofChar '\r', .ofChar '\x0b', .ofChar '\x0c']

/-- The dialect in which only newline, tab and space are blanks. -/
def strict : Dialect := { standard with extra := [] }

theorem ofTokens_default : ofTokens {} = .ok standard := rfl

theorem ofTokens_strict : ofTokens .strict = .ok strict := rfl

/-- The part that a character plays. The first class that fits counts. -/
def classify (d : Dialect) (c : CodePoint) : CharClass :=
  if c = d.newline then .newline
  else if c = d.tab ∨ c = d.space ∨ c ∈ d.extra then .blank
  else if c = d.opening then .opening
  else if c = d.closing then .closing
  else .constituent

theorem isBlank_classify_iff (d : Dialect) (c : CodePoint) :
    (d.classify c).isBlank = true ↔
      c = d.newline ∨ c = d.tab ∨ c = d.space ∨ c ∈ d.extra := by
  unfold classify
  grind [CharClass.isBlank]

theorem classify_eq_newline_iff {d : Dialect} {c : CodePoint} :
    d.classify c = .newline ↔ c = d.newline := by
  unfold classify
  grind

theorem classify_eq_opening_iff {d : Dialect} {c : CodePoint}
    (h : (d.classify c).isBlank = false) : d.classify c = .opening ↔ c = d.opening := by
  unfold classify at h ⊢
  grind [CharClass.isBlank]

theorem eq_opening_of_classify {d : Dialect} {c : CodePoint} (h : d.classify c = .opening) :
    c = d.opening := by
  unfold classify at h
  grind

theorem eq_closing_of_classify {d : Dialect} {c : CodePoint} (h : d.classify c = .closing) :
    c = d.closing := by
  unfold classify at h
  grind

theorem classify_eq_constituent_iff {d : Dialect} {c : CodePoint} :
    d.classify c = .constituent ↔
      c ≠ d.newline ∧ c ≠ d.tab ∧ c ≠ d.space ∧ c ∉ d.extra ∧ c ≠ d.opening ∧ c ≠ d.closing := by
  unfold classify
  grind

/-- What a message expects where a list should end. -/
def closingName (d : Dialect) : Text := Text.quoted [d.closing]

end Dialect

end SexpReader
