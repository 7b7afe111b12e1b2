import SexpReader.Proofs.Batches
import SexpReader.Proofs.Legible
import SexpReader.Proofs.Rendering

/-!
# Printed trees can be told apart

An atom is printed as it stands, so that a tree made by hand may be printed like another one: its
atom can hold an angle bracket, a space and whatever else the printed form of that other tree has.
What was parsed holds no space and no newline in its atoms. Then a printed atom ends at the first of
them, for what comes behind a tree in print is one of the two, or nothing; and so every printed tree
tells where it ends, at any depth.
-/

namespace SexpReader

/-- A character that does not set printed trees apart. -/
def CodePoint.IsSolid (c : CodePoint) : Prop := c ≠ .ofChar ' ' ∧ c ≠ .ofChar '\n'

instance : DecidablePred CodePoint.IsSolid := fun _ => inferInstanceAs (Decidable (_ ∧ _))

namespace Text

/-- A text that may stand behind a printed tree. -/
def IsLoose (t : Text) : Prop := ∀ c ∈ t.head?, ¬ c.IsSolid

theorem isLoose_nil : IsLoose [] := nofun

theorem isLoose_space_append (t : Text) : IsLoose (" " ++ t) := by
  rintro c ⟨⟩
  decide

theorem isLoose_newline_append (t : Text) : IsLoose ("\n" ++ t) := by
  rintro c ⟨⟩
  decide

end Text

namespace Node

/-- A tree whose atoms hold no space and no newline. -/
def IsSolid (t : Node) : Prop := ∀ v, .atom v ∈ t.lexemes → ∀ c ∈ v, c.IsSolid

/-- What parsing some source comes to, whether the dialect is strict or not. -/
def IsParsed (t : Node) : Prop := ∃ d b, (d = .standard ∨ d = .strict) ∧ parseBytes d b = .ok t

theorem IsSolid.of_atom {v : Text} {b : Bounds} (h : IsSolid (.atom v b)) : ∀ c ∈ v, c.IsSolid :=
  h v (List.mem_singleton.2 rfl)

theorem IsSolid.of_mem {xs : List Node} {b : Bounds} (h : IsSolid (.list xs b)) :
    ∀ x ∈ xs, x.IsSolid := by
  intro x hx v hv
  obtain ⟨front, back, rfl⟩ := List.append_of_mem hx
  refine h v ?_
  rw [lexemes, lexemesAll_append, lexemesAll]
  simp [hv]

theorem IsParsed.isSolid {t : Node} (h : t.IsParsed) : t.IsSolid := by
  obtain ⟨d, b, hd, ht⟩ := h
  intro v hv c hc
  obtain ⟨bounds, hv⟩ := (atom_mem_lexemes_iff t).1 hv
  obtain ⟨hnewline, -, hspace, -⟩ :=
    Dialect.classify_eq_constituent_iff.1 ((isAtomText_of_mem_preorder ht hv).constituent c hc)
  rcases hd with rfl | rfl
  · exact ⟨hspace, hnewline⟩
  · exact ⟨hspace, hnewline⟩

/-- How the printed form begins. -/
def opener : Node → Text
  | .atom .. => "<At"
  | .list [] _ => "<()"
  | .list (_ :: _) _ => "<( "

theorem print_false_atom (v : Text) (b : Bounds) :
    Tree.print false (.atom v b : Node) = "<At " ++ (v ++ ">") := by
  rw [Tree.print_atom, Bounds.printIf, List.append_assoc, List.append_assoc]
  rfl

theorem print_false_list_nil (b : Bounds) : Tree.print false (.list [] b : Node) = "<()>" := by
  rw [Tree.print_list_nil]
  rfl

/-- A list is printed with a space before each of its elements and one more behind them. -/
theorem print_false_list_cons (x : Node) (xs : List Node) (b : Bounds) :
    Tree.print false (.list (x :: xs) b) =
      "<(" ++ (Tree.printRest false (x :: xs) ++ (" " ++ ")>")) := by
  rw [Tree.print_list_cons, Bounds.printIf, Tree.printRest, Tree.printRest, List.flatMap_cons]
  simp only [List.append_assoc]
  rfl

theorem printRest_cons (x : Node) (xs : List Node) :
    Tree.printRest false (x :: xs) = " " ++ (x.print false ++ Tree.printRest false xs) := by
  rw [Tree.printRest, Tree.printRest, List.flatMap_cons, List.append_assoc]

theorem take_print_append (t : Node) (r : Text) : (t.print false ++ r).take 3 = t.opener := by
  match t with
  | .atom v b =>
      rw [print_false_atom]
      rfl
  | .list [] b =>
      rw [print_false_list_nil]
      rfl
  | .list (x :: xs) b =>
      rw [print_false_list_cons, printRest_cons]
      rfl

theorem opener_eq_of_print_append {t u : Node} {r s : Text}
    (h : t.print false ++ r = u.print false ++ s) : t.opener = u.opener := by
  rw [← take_print_append t r, h, take_print_append]

theorem isLoose_printRest_append (xs : List Node) (r : Text) :
    Text.IsLoose (Tree.printRest false xs ++ (" " ++ r)) := by
  cases xs with
  | nil => exact Text.isLoose_space_append _
  | cons x xs =>
      rw [printRest_cons, List.append_assoc]
      exact Text.isLoose_space_append _

/-- Behind the last element there is a bracket where another element would begin. -/
theorem printRest_cons_append_ne (x : Node) (xs : List Node) (r s : Text) :
    Tree.printRest false (x :: xs) ++ r ≠ " " ++ (")>" ++ s) := by
  intro h
  rw [printRest_cons, List.append_assoc, List.append_assoc] at h
  have hopener := congrArg (List.take 3) (List.append_cancel_left h)
  rw [take_print_append] at hopener
  match x with
  | .atom .. => cases hopener
  | .list [] _ => cases hopener
  | .list (_ :: _) _ => cases hopener

-- The induction is on the trees with whatever stands behind them, since an element has the rest of
-- its list behind it.
mutual

/-- The printed form of a tree tells what it is and where it ends. -/
theorem same_of_print_append : ∀ (t u : Node) (r s : Text), t.IsSolid → u.IsSolid →
    r.IsLoose → s.IsLoose → t.print false ++ r = u.print false ++ s → t.same u = true ∧ r = s
  | .atom v _, .atom w _, r, s, ht, hu, hr, hs, h => by
      rw [print_false_atom, print_false_atom, List.append_assoc (Text.ofString "<At "),
        List.append_assoc (Text.ofString "<At ")] at h
      have hclose : ∀ c ∈ (">" : Text), c.IsSolid := by decide
      obtain ⟨htext, hrest⟩ := Text.append_inj_of_head
        (List.forall_mem_append.2 ⟨ht.of_atom, hclose⟩)
        (List.forall_mem_append.2 ⟨hu.of_atom, hclose⟩) hr hs (List.append_cancel_left h)
      rw [List.append_cancel_right htext]
      exact ⟨beq_self_eq_true w, hrest⟩
  | .list [] _, .list [] _, r, s, _, _, _, _, h => by
      rw [print_false_list_nil, print_false_list_nil] at h
      exact ⟨rfl, List.append_cancel_left h⟩
  | .list (x :: xs) _, .list (y :: ys) _, r, s, ht, hu, _, _, h => by
      rw [print_false_list_cons, print_false_list_cons] at h
      simp only [List.append_assoc] at h
      exact sameAll_of_printRest_append (x :: xs) (y :: ys) r s ht.of_mem hu.of_mem
        (List.append_cancel_left h)
  -- Trees of different forms already differ in the first three characters.
  | .atom .., .list [] _, _, _, _, _, _, _, h
  | .atom .., .list (_ :: _) _, _, _, _, _, _, _, h
  | .list [] _, .atom .., _, _, _, _, _, _, h
  | .list [] _, .list (_ :: _) _, _, _, _, _, _, _, h
  | .list (_ :: _) _, .atom .., _, _, _, _, _, _, h
  | .list (_ :: _) _, .list [] _, _, _, _, _, _, _, h => by
      cases opener_eq_of_print_append h

theorem sameAll_of_printRest_append : ∀ (xs ys : List Node) (r s : Text),
    (∀ x ∈ xs, x.IsSolid) → (∀ y ∈ ys, y.IsSolid) →
    Tree.printRest false xs ++ (" " ++ (")>" ++ r)) =
      Tree.printRest false ys ++ (" " ++ (")>" ++ s)) →
    Tree.sameAllBy (· == ·) xs ys = true ∧ r = s
  | [], [], _, _, _, _, h => by
      exact ⟨rfl, List.append_cancel_left (List.append_cancel_left h)⟩
  | [], y :: ys, _, _, _, _, h => (printRest_cons_append_ne y ys _ _ h.symm).elim
  | x :: xs, [], _, _, _, _, h => (printRest_cons_append_ne x xs _ _ h).elim
  | x :: xs, y :: ys, r, s, hx, hy, h => by
      rw [List.forall_mem_cons] at hx hy
      rw [printRest_cons, printRest_cons] at h
      simp only [List.append_assoc] at h
      obtain ⟨hhead, htail⟩ := same_of_print_append x y _ _ hx.1 hy.1
        (isLoose_printRest_append xs _) (isLoose_printRest_append ys _) (List.append_cancel_left h)
      obtain ⟨hall, hrest⟩ := sameAll_of_printRest_append xs ys r s hx.2 hy.2 htail
      refine ⟨?_, hrest⟩
      rw [Tree.sameAllBy, hall, Bool.and_true]
      exact hhead

end

mutual

/-- Where a tree was read does not show in print. -/
theorem print_eq_of_same : ∀ t u : Node, t.same u = true → t.print false = u.print false
  | .atom v _, .atom w _, h => by
      rw [print_false_atom, print_false_atom, eq_of_beq h]
  | .atom _ _, .list _ _, h => by
      cases h
  | .list _ _, .atom _ _, h => by
      cases h
  | .list [] _, .list [] _, _ => by
      rw [print_false_list_nil, print_false_list_nil]
  | .list [] _, .list (_ :: _) _, h => by
      cases h
  | .list (_ :: _) _, .list [] _, h => by
      cases h
  | .list (x :: xs) _, .list (y :: ys) _, h => by
      rw [print_false_list_cons, print_false_list_cons,
        printRest_eq_of_sameAll (x :: xs) (y :: ys) h]

theorem printRest_eq_of_sameAll : ∀ xs ys : List Node,
    Tree.sameAllBy (· == ·) xs ys = true → Tree.printRest false xs = Tree.printRest false ys
  | [], [], _ => rfl
  | [], _ :: _, h => by
      cases h
  | _ :: _, [], h => by
      cases h
  | x :: xs, y :: ys, h => by
      rw [Tree.sameAllBy, Bool.and_eq_true] at h
      rw [printRest_cons, printRest_cons, print_eq_of_same x y h.1,
        printRest_eq_of_sameAll xs ys h.2]

end

/-- Trees without spaces and newlines in their atoms are equal if they are printed alike. -/
theorem print_eq_iff {t u : Node} (ht : t.IsSolid) (hu : u.IsSolid) :
    t.print false = u.print false ↔ (t == u) = true := by
  constructor
  · intro h
    have happend : t.print false ++ [] = u.print false ++ [] := by rw [h]
    exact (same_of_print_append t u [] [] ht hu Text.isLoose_nil Text.isLoose_nil happend).1
  · exact print_eq_of_same t u

end Node

namespace Report

open Node

theorem treeLine_ne_nil (t : Node) : treeLine t ≠ [] := by
  intro h
  cases (List.append_eq_nil_iff.1 h).2

theorem forall₂_of_flatMap_treeLine_eq {ts us : List Node} (hts : ∀ t ∈ ts, t.IsSolid)
    (hus : ∀ u ∈ us, u.IsSolid) (h : ts.flatMap treeLine = us.flatMap treeLine) :
    List.Forall₂ (fun t u => (t == u) = true) ts us := by
  induction ts generalizing us with
  | nil =>
      cases us with
      | nil => exact .nil
      | cons u us =>
          rw [List.flatMap_nil, List.flatMap_cons] at h
          exact (treeLine_ne_nil u (List.append_eq_nil_iff.1 h.symm).1).elim
  | cons t ts ih =>
      cases us with
      | nil =>
          rw [List.flatMap_nil, List.flatMap_cons] at h
          exact (treeLine_ne_nil t (List.append_eq_nil_iff.1 h).1).elim
      | cons u us =>
          rw [List.forall_mem_cons] at hts hus
          simp only [List.flatMap_cons, treeLine, List.append_assoc] at h
          obtain ⟨hhead, htail⟩ := same_of_print_append t u _ _ hts.1 hus.1
            (Text.isLoose_newline_append _) (Text.isLoose_newline_append _) h
          exact .cons hhead (ih hts.2 hus.2 (List.append_cancel_left htail))

theorem flatMap_treeLine_eq_of_forall₂ {ts us : List Node}
    (h : List.Forall₂ (fun t u => (t == u) = true) ts us) :
    ts.flatMap treeLine = us.flatMap treeLine := by
  induction h with
  | nil => rfl
  | cons hhead _ ih =>
      rw [List.flatMap_cons, List.flatMap_cons, ih, treeLine, treeLine,
        print_eq_of_same _ _ hhead]

/-- Sequences of trees are printed alike exactly if they are equal one by one. -/
theorem flatMap_treeLine_eq_iff {ts us : List Node} (hts : ∀ t ∈ ts, t.IsSolid)
    (hus : ∀ u ∈ us, u.IsSolid) : ts.flatMap treeLine = us.flatMap treeLine ↔
      List.Forall₂ (fun t u => (t == u) = true) ts us :=
  ⟨forall₂_of_flatMap_treeLine_eq hts hus, flatMap_treeLine_eq_of_forall₂⟩

theorem mem_treesOf_iff {d : Dialect} {l : List (Text × Bytes)} {t : Node} :
    t ∈ treesOf d l ↔ ∃ p ∈ l, parseBytes d p.2 = .ok t := by
  rw [treesOf, List.mem_filterMap]
  refine exists_congr fun p => and_congr_right fun _ => ?_
  cases parseBytes d p.2 <;> simp [Except.toOption]

/-- The trees of a report are those of the sources before the first that cannot be read, and the
output is made of these trees alone. -/
theorem exists_treesOf (d : Dialect) (ss : List Source) : ∃ l,
    (ofSources d false ss).trees = treesOf d l ∧
      (ofSources d false ss).output = (treesOf d l).flatMap treeLine := by
  induction ss with
  | nil => exact ⟨[], rfl, rfl⟩
  | cons s ss ih =>
      obtain ⟨p, rfl⟩ | ⟨name, e, rfl⟩ := s.readable_or_error
      · obtain ⟨l, htrees, houtput⟩ := ih
        refine ⟨p :: l, ?_, ?_⟩
        · rw [ofSources_readable_cons, ofBytes_eq, treesOf_cons d p l]
          exact congrArg (treesOf d [p] ++ ·) htrees
        · rw [ofSources_readable_cons, ofBytes_eq, treesOf_cons d p l, List.flatMap_append]
          exact congrArg ((treesOf d [p]).flatMap treeLine ++ ·) houtput
      · exact ⟨[], rfl, rfl⟩

theorem isSolid_of_mem_treesOf {d : Dialect} (hd : d = .standard ∨ d = .strict)
    {l : List (Text × Bytes)} : ∀ t ∈ treesOf d l, t.IsSolid := by
  intro t ht
  obtain ⟨p, -, hp⟩ := mem_treesOf_iff.1 ht
  exact IsParsed.isSolid ⟨d, p.2, hd, hp⟩

/-- What is printed tells which trees were parsed. Two sequences of parsed trees give the same lines
exactly if they are equal one by one, and two parsed trees have the same printed form exactly if
they are equal. So two runs write the same output exactly if their trees are equal one by one,
whatever the sources were. -/
theorem printed_trees_faithful :
    (∀ ts us : List Node, (∀ t ∈ ts, t.IsParsed) → (∀ u ∈ us, u.IsParsed) →
      (ts.flatMap treeLine = us.flatMap treeLine ↔
        List.Forall₂ (fun t u => (t == u) = true) ts us)) ∧
    (∀ t u : Node, t.IsParsed → u.IsParsed →
      (t.print false = u.print false ↔ (t == u) = true)) ∧
    ∀ d d' : Dialect, (d = .standard ∨ d = .strict) → (d' = .standard ∨ d' = .strict) →
      ∀ ss ss' : List Source,
        ((ofSources d false ss).output = (ofSources d' false ss').output ↔
          List.Forall₂ (fun t u => (t == u) = true) (ofSources d false ss).trees
            (ofSources d' false ss').trees) := by
  refine ⟨?_, ?_, ?_⟩
  · intro ts us hts hus
    exact flatMap_treeLine_eq_iff (fun t ht => (hts t ht).isSolid) fun u hu => (hus u hu).isSolid
  · intro t u ht hu
    exact print_eq_iff ht.isSolid hu.isSolid
  · intro d d' hd hd' ss ss'
    obtain ⟨l, htrees, houtput⟩ := exists_treesOf d ss
    obtain ⟨l', htrees', houtput'⟩ := exists_treesOf d' ss'
    rw [htrees, htrees', houtput, houtput']
    exact flatMap_treeLine_eq_iff (isSolid_of_mem_treesOf hd) (isSolid_of_mem_treesOf hd')

/-- Two sources with different blanks are printed alike, in either order, and are told apart from
one of them alone. -/
theorem printed_trees_of_two_spellings :
    let b : Bytes := [0x28, 0x61, 0x20, 0x62, 0x29]
    let b' : Bytes := [0x28, 0x20, 0x61, 0x0A, 0x62, 0x29]
    let t : Node := .list [.atom "a" (.between 1 2), .atom "b" (.between 3 4)] (.between 0 5)
    let u : Node := .list [.atom "a" (.between 2 3), .atom "b" (.between 4 5)] (.between 0 6)
    parseBytes .standard b = .ok t ∧ parseBytes .strict b' = .ok u ∧
      [t, u].flatMap treeLine = [u, t].flatMap treeLine ∧
      [t].flatMap treeLine ≠ [u, t].flatMap treeLine ∧ t.print false = u.print false ∧
      (ofSources .standard false [.readable ("a", b)]).output =
        (ofSources .strict false [.readable ("b", b')]).output := by
  intro b b' t u
  have ht : parseBytes .standard b = .ok t := by rfl
  have hu : parseBytes .strict b' = .ok u := by rfl
  have htParsed : t.IsParsed := ⟨.standard, b, .inl rfl, ht⟩
  have huParsed : u.IsParsed := ⟨.strict, b', .inr rfl, hu⟩
  have htu : ∀ x ∈ [t, u], x.IsParsed :=
    List.forall_mem_cons.2 ⟨htParsed, List.forall_mem_singleton.2 huParsed⟩
  have hut : ∀ x ∈ [u, t], x.IsParsed :=
    List.forall_mem_cons.2 ⟨huParsed, List.forall_mem_singleton.2 htParsed⟩
  obtain ⟨hlists, htrees, hruns⟩ := printed_trees_faithful
  refine ⟨ht, hu, ?_, ?_, ?_, ?_⟩
  · exact (hlists [t, u] [u, t] htu hut).2 (.cons rfl (.cons rfl .nil))
  · rw [Ne, hlists [t] [u, t] (List.forall_mem_singleton.2 htParsed) hut]
    rintro (_ | ⟨-, hrest⟩)
    cases hrest
  · exact (htrees t u htParsed huParsed).2 rfl
  · rw [hruns .standard .strict (.inl rfl) (.inr rfl)]
    have hleft : (ofSources .standard false [.readable ("a", b)]).trees = [t] := by
      rw [ofSources_readable_cons, ofBytes_eq]
      rfl
    have hright : (ofSources .strict false [.readable ("b", b')]).trees = [u] := by
      rw [ofSources_readable_cons, ofBytes_eq]
      rfl
    rw [hleft, hright]
    exact .cons rfl .nil

/-- A tree made by hand can be printed like another one. -/
example : Tree.print false (.list [.atom "a> <At b" .unknown] .unknown : Node) =
    Tree.print false (.list [.atom "a" .unknown, .atom "b" .unknown] .unknown : Node) := by
  rfl

end Report

end SexpReader
