import SexpReader.Fault
import SexpReader.Proofs.Legible

/-!
# Messages identify failures

A message puts what was met, the place and what was expected between fixed words. What was met is an
arbitrary text, shown by its name or between quotation marks, and what was expected is an arbitrary
text as it stands. Nothing of this can be mistaken for something else: names are words, quoted texts
begin with a mark and tell where they end, a number ends where there is no digit, and the expected
text is the last part. Hence different failures have different messages, and what is printed quotes
the message.
-/

namespace SexpReader

namespace CodePoint

/-- The characters of which names are made. -/
def IsLower (c : CodePoint) : Prop := 0x61 ≤ c.val ∧ c.val ≤ 0x7A

instance : DecidablePred IsLower := fun _ => inferInstanceAs (Decidable (_ ∧ _))

/-- The characters that have names. -/
def named : List CodePoint :=
  [.ofChar '\x00', .ofChar '\x08', .ofChar '\t', .ofChar '\n', .ofChar '\x0b', .ofChar '\x0c',
    .ofChar '\r', .ofChar ' ', .ofChar '\x7f']

theorem mem_named_of_name? {c : CodePoint} {n : Text} (h : c.name? = some n) : c ∈ named := by
  have hval : c.val ∈ named.map val := by
    unfold name? at h
    split at h
    case h_10 => cases h
    all_goals
      rename_i hval
      rw [hval]
      decide
  obtain ⟨c', hc', hcc'⟩ := List.mem_map.1 hval
  rw [← CodePoint.ext hcc']
  exact hc'

theorem name?_injOn : ∀ c ∈ named, ∀ c' ∈ named, c.name? = c'.name? → c = c' := by
  decide

theorem isLower_of_name? {c : CodePoint} {n : Text} (h : c.name? = some n) :
    n ≠ [] ∧ ∀ x ∈ n, x.IsLower := by
  have hall : ∀ c ∈ named, c.name?.getD [] ≠ [] ∧ ∀ x ∈ c.name?.getD [], x.IsLower := by
    decide
  have hn := hall c (mem_named_of_name? h)
  rw [h] at hn
  exact hn

end CodePoint

namespace Text

open CodePoint

theorem not_isLower_of_isMark {c : CodePoint} (h : IsMark c) : ¬ c.IsLower := by
  rcases h with rfl | rfl <;> decide

/-- A text is shown by its name or between quotation marks. -/
theorem described_cases (t : Text) :
    (∃ c n, t = [c] ∧ c.name? = some n ∧ t.described = n) ∨ t.described = t.quoted := by
  match t with
  | [] => exact .inr rfl
  | [c] =>
      cases hn : c.name? with
      | none =>
          right
          rw [described, hn]
          rfl
      | some n =>
          left
          refine ⟨c, n, rfl, hn, ?_⟩
          rw [described, hn]
          rfl
  | _ :: _ :: _ => exact .inr rfl

/-- A quoted text does not begin like a word. -/
theorem quoted_append_ne {w : Text} (hne : w ≠ []) (hw : ∀ c ∈ w, c.IsLower) (t r s : Text) :
    t.quoted ++ r ≠ w ++ s := by
  intro h
  cases w with
  | nil => exact hne rfl
  | cons c w =>
      rw [quoted_append, List.cons_append, List.cons.injEq] at h
      rw [List.forall_mem_cons, ← h.1] at hw
      exact not_isLower_of_isMark (isMark_quoteMark t) hw.1

/-- What was met tells where it ends, if no letter follows. -/
theorem described_append_inj {t u r s : Text} (hr : ∀ c ∈ r.head?, ¬ c.IsLower)
    (hs : ∀ c ∈ s.head?, ¬ c.IsLower) (h : t.described ++ r = u.described ++ s) :
    t = u ∧ r = s := by
  obtain ⟨c, n, rfl, hn, ht⟩ | ht := described_cases t
  · obtain ⟨hne, hlower⟩ := isLower_of_name? hn
    obtain ⟨c', n', rfl, hn', hu⟩ | hu := described_cases u
    · obtain ⟨-, hlower'⟩ := isLower_of_name? hn'
      rw [ht, hu] at h
      obtain ⟨rfl, hrest⟩ := append_inj_of_head hlower hlower' hr hs h
      rw [name?_injOn c (mem_named_of_name? hn) c' (mem_named_of_name? hn') (hn.trans hn'.symm)]
      exact ⟨rfl, hrest⟩
    · rw [ht, hu] at h
      exact (quoted_append_ne hne hlower _ _ _ h.symm).elim
  · obtain ⟨c', n', rfl, hn', hu⟩ | hu := described_cases u
    · obtain ⟨hne, hlower⟩ := isLower_of_name? hn'
      rw [ht, hu] at h
      exact (quoted_append_ne hne hlower _ _ _ h).elim
    · rw [ht, hu] at h
      exact quoted_append_inj h

theorem described_injective : Function.Injective described := by
  intro t u h
  have hnil : ∀ c ∈ ([] : Text).head?, ¬ c.IsLower := by
    rintro c ⟨⟩
  have happend : t.described ++ [] = u.described ++ [] := by rw [h]
  exact (described_append_inj hnil hnil happend).1

/-- The end of input is a word and not a name, and what follows the word tells it apart. -/
theorem described_append_ne (t r s : Text) :
    t.described ++ (" at line " ++ r) ≠ "end of input" ++ s := by
  intro h
  have hword : ∀ c ∈ ("end" : Text), c.IsLower := by decide
  have hsplit : ("end of input" : Text) = "end" ++ " of input" := by rfl
  rw [hsplit, List.append_assoc] at h
  obtain ⟨c, n, rfl, hn, ht⟩ | ht := described_cases t
  · rw [ht] at h
    have hr : ∀ c ∈ (" at line " ++ r).head?, ¬ c.IsLower := by
      rintro c ⟨⟩
      decide
    have hs : ∀ c ∈ (" of input" ++ s).head?, ¬ c.IsLower := by
      rintro c ⟨⟩
      decide
    obtain ⟨-, hrest⟩ := append_inj_of_head (isLower_of_name? hn).2 hword hr hs h
    have hstart : (" a" : Text) = " o" := congrArg (List.take 2) hrest
    exact absurd hstart (by decide)
  · rw [ht] at h
    exact quoted_append_ne (by decide) hword _ _ _ h

end Text

namespace Failure

variable {f g : Failure}

theorem eq_iff : f = g ↔
    f.cause = g.cause ∧ f.expected = g.expected ∧ f.line = g.line ∧ f.column = g.column := by
  cases f
  cases g
  exact Eq.to_iff (Failure.mk.injEq ..)

/-- What was met tells where the place begins. -/
theorem subject_append_inj {r s : Text}
    (h : f.subject ++ (" at line " ++ r) = g.subject ++ (" at line " ++ s)) :
    f.cause = g.cause ∧ r = s := by
  unfold subject at h
  cases hf : f.cause with
  | unexpected t =>
      cases hg : g.cause with
      | unexpected u =>
          rw [hf, hg] at h
          have hplace : ∀ r : Text, ∀ c ∈ (" at line " ++ r).head?, ¬ c.IsLower := by
            rintro r c ⟨⟩
            decide
          obtain ⟨rfl, hrest⟩ := Text.described_append_inj (hplace r) (hplace s) h
          exact ⟨rfl, List.append_cancel_left hrest⟩
      | endOfInput =>
          rw [hf, hg] at h
          exact (Text.described_append_ne _ _ _ h).elim
  | endOfInput =>
      cases hg : g.cause with
      | unexpected u =>
          rw [hf, hg] at h
          exact (Text.described_append_ne _ _ _ h.symm).elim
      | endOfInput =>
          rw [hf, hg] at h
          exact ⟨rfl, List.append_cancel_left (List.append_cancel_left h)⟩

theorem message_injective : Function.Injective message := by
  intro f g h
  simp only [message, List.append_assoc] at h
  obtain ⟨hcause, hplace⟩ := subject_append_inj (List.append_cancel_left h)
  have hcolumn : ∀ r : Text, ∀ c ∈ (" column " ++ r).head?, ¬ Text.IsNumeral c := by
    rintro r c ⟨⟩
    rw [Text.isNumeral_ofChar_iff]
    decide
  have hexpected : ∀ r : Text, ∀ c ∈ (", expected " ++ r).head?, ¬ Text.IsNumeral c := by
    rintro r c ⟨⟩
    rw [Text.isNumeral_ofChar_iff]
    decide
  obtain ⟨hline, hbehind⟩ := Text.ofInt_append_inj (hcolumn _) (hcolumn _) hplace
  obtain ⟨hcol, hlast⟩ := Text.ofInt_append_inj (hexpected _) (hexpected _)
    (List.append_cancel_left hbehind)
  exact eq_iff.2 ⟨hcause, List.append_cancel_left hlast, hline, hcol⟩

/-- A label is one word. -/
theorem ne_space_of_mem_label (f : Failure) : ∀ c ∈ f.label, c ≠ .ofChar ' ' := by
  unfold label
  split
  · decide
  · decide

theorem print_injective : Function.Injective print := by
  intro f g h
  simp only [print, printLabelled, List.append_assoc] at h
  have hspace : ∀ r : Text, ∀ c ∈ (" " ++ r).head?, ¬ c ≠ .ofChar ' ' := by
    rintro r c ⟨⟩
    exact not_not_intro rfl
  obtain ⟨-, hquoted⟩ := Text.append_inj_of_head f.ne_space_of_mem_label
    g.ne_space_of_mem_label (hspace _) (hspace _) (List.append_cancel_left h)
  exact message_injective (Text.quoted_append_inj (List.append_cancel_left hquoted)).1

end Failure

namespace Fault

variable {x y : Fault} {f g : Failure}

theorem fields_of_failure? (h : x.failure? = some f) : x.cause? = some f.cause ∧
    x.expected = f.expected ∧ x.line = f.line ∧ x.column = f.column := by
  obtain ⟨cause, hcause, rfl⟩ := Option.map_eq_some_iff.1 h
  exact ⟨hcause, rfl, rfl, rfl⟩

theorem message?_of_failure? (h : x.failure? = some f) : x.message? = some f.message := by
  rw [message?, h]

theorem print_of_failure? (h : x.failure? = some f) : x.print = f.print := by
  rw [print, message?_of_failure? h, label, h]
  rfl

/-- Faults with causes are equal exactly if their failures are. -/
theorem beq_iff_of_failure? (hx : x.failure? = some f) (hy : y.failure? = some g) :
    (x == y) = true ↔ f = g := by
  change (x.cause? == y.cause? && x.expected == y.expected && x.line == y.line &&
    x.column == y.column) = true ↔ _
  obtain ⟨hxc, hxe, hxl, hxr⟩ := fields_of_failure? hx
  obtain ⟨hyc, hye, hyl, hyr⟩ := fields_of_failure? hy
  rw [hxc, hyc, hxe, hye, hxl, hyl, hxr, hyr, Failure.eq_iff]
  simp only [Bool.and_eq_true, beq_iff_eq, Option.some.injEq, and_assoc]

end Fault

/-- The message identifies the failure. Two faults with causes have the same message exactly if they
are equal, and the same printed form exactly if they are equal, whatever they met, whatever was
expected, and whatever further attributes they have; and no two texts are described alike. -/
theorem messages_identify_failures :
    (∀ f g : Failure, (f.message = g.message ↔ f = g) ∧ (f.print = g.print ↔ f = g)) ∧
    (∀ (x y : Fault) (f g : Failure), x.failure? = some f → y.failure? = some g →
      (x.message? = y.message? ↔ (x == y) = true) ∧ (x.print = y.print ↔ (x == y) = true) ∧
        x.message? = some f.message ∧ x.print = f.print) ∧
    ∀ t u : Text, t.described = u.described ↔ t = u := by
  refine ⟨?_, ?_, ?_⟩
  · intro f g
    exact ⟨Failure.message_injective.eq_iff, Failure.print_injective.eq_iff⟩
  · intro x y f g hx hy
    rw [Fault.beq_iff_of_failure? hx hy, Fault.message?_of_failure? hx,
      Fault.message?_of_failure? hy, Fault.print_of_failure? hx, Fault.print_of_failure? hy,
      Option.some.injEq]
    exact ⟨Failure.message_injective.eq_iff, Failure.print_injective.eq_iff, rfl, rfl⟩
  · intro t u
    exact Text.described_injective.eq_iff

/-- A space and the word for it are told apart, and an attribute does not show. -/
theorem messages_about_space :
    let x : Fault := ⟨some (.unexpected " "), "')'", 1, 3, [("note", .text "seen")]⟩
    let y : Fault := ⟨some (.unexpected " "), "')'", 1, 3, []⟩
    let z : Fault := ⟨some (.unexpected "space"), "')'", 1, 3, []⟩
    x.message? = y.message? ∧ x.message? ≠ z.message? ∧ x.print ≠ z.print := by
  intro x y z
  obtain ⟨-, hfaults, -⟩ := messages_identify_failures
  obtain ⟨hxy, -⟩ := hfaults x y _ _ rfl rfl
  obtain ⟨hxz, hprint, -⟩ := hfaults x z _ _ rfl rfl
  have hdiffer : ¬ (x == z) = true := by decide
  exact ⟨hxy.2 rfl, hxz.not.2 hdiffer, hprint.not.2 hdiffer⟩

end SexpReader
