import SexpReader.Proofs.Extent
import SexpReader.Proofs.Legible

/-!
# The trace follows the tree

Whether the reader records what happens has no influence on what it reads. If it does, and reads a
tree, the events are what there is to report on its nodes (`Chart.reports`), from the inside and
from left to right: one event for each node, and two more for each list. Each event is printed in a
line, and `Chart.lines` writes out those that belong to a node. The message in them holds no
character that has to be escaped.

The places that are shown can be told from the tree alone. What is reported on a node is reported
behind the blanks that follow it, and that a list has no further element is reported in front of its
closing bracket. `Cursor.chart` finds these places in the buffer by the offsets at which the nodes
end, and it fits what lies ahead of the cursor.
-/

namespace SexpReader

/-! ## The lines -/

/-- Joined texts stand one after the other, with the separator in front of each but the first. -/
theorem Text.join_cons (s t : Text) (ts : List Text) :
    join s (t :: ts) = t ++ ts.flatMap (s ++ ·) := by
  induction ts generalizing t with
  | nil => simp
  | cons u ts ih => rw [join_cons_cons, ih, List.flatMap_cons, List.append_assoc, List.append_assoc]

/-- The bounds of a node, written out. -/
def Bounds.shown (b : Bounds) : Text :=
  " ::" ++ (b.start.map Text.ofInt).getD "None" ++ ":" ++ (b.stop.map Text.ofInt).getD "None"

theorem Bounds.print_eq_shown (b : Bounds) : b.print = b.shown := by
  obtain ⟨start, stop⟩ := b
  cases start <;> cases stop <;> rfl

namespace Tree

mutual

/-- The printed form of a node with all bounds, written out. -/
def shown : Node → Text
  | .atom v b => "<At " ++ v ++ b.shown ++ ">"
  | .list [] b => "<()" ++ b.shown ++ ">"
  | .list (x :: xs) b => "<( " ++ Text.join " " (shown x :: shownAll xs) ++ " )" ++ b.shown ++ ">"
  | .leaf x => x.elim

/-- The printed forms of a sequence of nodes. -/
def shownAll : List Node → List Text
  | [] => []
  | x :: xs => shown x :: shownAll xs

end

mutual

theorem print_eq_shown : ∀ n : Node, n.print true = n.shown
  | .atom v b => by
    rw [print_atom, shown, ← b.print_eq_shown]
    rfl
  | .list [] b => by
    rw [print_list_nil, shown, ← b.print_eq_shown]
    rfl
  | .list (x :: xs) b => by
    rw [print_list_cons, print_eq_shown x, printRest_eq_shown xs, shown, Text.join_cons,
      ← b.print_eq_shown, ← List.append_assoc]
    rfl
  | .leaf x => x.elim

theorem printRest_eq_shown : ∀ xs : List Node,
    printRest true xs = (shownAll xs).flatMap (Text.ofString " " ++ ·)
  | [] => rfl
  | x :: xs => by
    rw [printRest, List.flatMap_cons, ← printRest, print_eq_shown x, printRest_eq_shown xs,
      shownAll, List.flatMap_cons]

end

end Tree

namespace Reader

theorem message_endFailure (m : Mark) : (endFailure "atom" m).message =
    "unexpected end of input at line " ++ Text.ofInt m.line ++ " column " ++ Text.ofInt m.column
      ++ ", expected atom" := by
  rw [Failure.message, List.append_assoc]
  rfl

/-- The message about the end of a list holds nothing that has to be escaped. -/
theorem print_endFailure (m : Mark) : (endFailure "atom" m).print =
    "<UnexpectedEndOfInput 'unexpected end of input at line " ++ Text.ofInt m.line
      ++ " column " ++ Text.ofInt m.column ++ ", expected atom'>" := by
  have hnumber (n : Int) :
      ∀ c ∈ Text.ofInt n, CodePoint.escaped CodePoint.apostrophe c = [c] :=
    fun _ hc => Text.escaped_of_isNumeral (Text.isNumeral_of_mem_ofInt hc)
  have hplain : ∀ c ∈ (endFailure "atom" m).message,
      CodePoint.escaped CodePoint.apostrophe c = [c] := by
    rw [message_endFailure]
    simp only [List.forall_mem_append]
    exact ⟨⟨⟨⟨by decide, hnumber m.line⟩, by decide⟩, hnumber m.column⟩, by decide⟩
  rw [Failure.print, Failure.printLabelled, Text.quoted_of_escaped hplain, message_endFailure]
  simp only [List.append_assoc]
  rfl

end Reader

namespace Chart

/-- The lines that are printed about a node of a source of `size` bytes. The line about the node
shows the place behind it; the two lines before it, which only a list has, show that an atom was
looked for in front of the closing bracket. -/
def lines (chart : Chart) (size : Nat) (n : Node) : List Text :=
  let behind := chart.behind n.bounds.stopOffset
  let before := chart.before n.bounds.stopOffset
  let place (m : Mark) : Text :=
    "<Stream " ++ Text.ofNat m.position ++ "/" ++ Text.ofNat size ++ " line " ++ Text.ofInt m.line
      ++ " column " ++ Text.ofInt m.column ++ ">"
  let failure : Text :=
    "<UnexpectedEndOfInput 'unexpected end of input at line " ++ Text.ofInt before.line
      ++ " column " ++ Text.ofInt before.column ++ ", expected atom'>"
  let line : Text := "sexp: " ++ n.shown ++ " " ++ place behind ++ "\n"
  if n.isList then
    ["sexp: " ++ failure ++ " " ++ place before ++ "\n", "list end: " ++ failure ++ "\n", line]
  else [line]

theorem map_print_reports (chart : Chart) (size : Nat) (n : Node) :
    (chart.reports n).map (Event.print size) = chart.lines size n := by
  simp only [lines, ← Reader.print_endFailure, ← Tree.print_eq_shown]
  cases n with
  | atom v b => rfl
  | list xs b => rfl
  | leaf x => exact x.elim

theorem map_print_flatMap_reports (chart : Chart) (size : Nat) (ns : List Node) :
    (ns.flatMap chart.reports).map (Event.print size) = ns.flatMap (chart.lines size) := by
  rw [List.map_flatMap]
  exact List.flatMap_congr fun n _ => map_print_reports chart size n

end Chart

/-! ## The places -/

namespace Cursor

/-- The glyphs from the cursor up to an offset. -/
def glyphsTo (c : Cursor) (stop : Nat) : List Glyph :=
  Utf8.glyphs (Index.window c.buffer c.mark.position stop)

/-- Where a cursor comes to that goes on up to an offset, and how it goes on from there. -/
def chart (d : Dialect) (c : Cursor) : Chart where
  behind stop := c.mark.after d
    (c.glyphsTo stop ++ (Utf8.glyphs (c.buffer.drop stop)).takeWhile d.isBlank)
  before stop := c.mark.after d (c.glyphsTo stop).dropLast

variable {d : Dialect} {c : Cursor} {gs before after : List Glyph} {n x : Node}

theorem Faces.glyphsTo (h : c.Faces (before ++ after)) (d : Dialect) :
    c.glyphsTo (c.after d before).mark.position = before := by
  rw [Cursor.glyphsTo, h.window d]
  exact (Utf8.glyphs_eq_append h.glyphs).1

theorem Faces.fits_chart (h : c.Faces gs) (d : Dialect) : (c.chart d).Fits d c.mark gs where
  behind before blanks after hsplit hblanks hafter := by
    rw [hsplit] at h
    have hrest : Utf8.glyphs (c.buffer.drop (c.mark.after d before).position) = blanks ++ after :=
      (h.after (d := d)).glyphs
    change c.mark.after d (c.glyphsTo (c.after d before).mark.position ++ _) = _
    rw [h.glyphsTo d, hrest, Dialect.takeWhile_append_of_head hblanks hafter]
  before before after g hsplit := by
    rw [hsplit, List.append_cons] at h
    change c.mark.after d (c.glyphsTo (c.after d (before ++ [g])).mark.position).dropLast = _
    rw [h.glyphsTo d, List.dropLast_concat]

/-- Every node of what is parsed is spelled by some of the glyphs ahead. -/
theorem exists_seg_of_mem_preorder (hn : (c.parse d false).outcome = .ok n) (hx : x ∈ n.preorder) :
    ∃ before seg after, Utf8.glyphs c.rest = before ++ seg ++ after ∧
      d.Spells (c.mark.after d before).position seg x := by
  obtain ⟨blanks, gs, tail, hsplit, -, hroot, -⟩ := spells_of_parse hn
  obtain ⟨before, seg, after, rfl, hseg⟩ := hroot.of_mem_preorder hx
  refine ⟨blanks ++ before, seg, after ++ tail, ?_, ?_⟩
  · rw [hsplit]
    simp
  · rw [Mark.position_after_eq rfl, Glyph.size_append, ← Nat.add_assoc]
    exact hseg

theorem stop_of_mem_preorder (hn : (c.parse d false).outcome = .ok n) (hx : x ∈ n.preorder) :
    x.bounds.stop = some ↑x.bounds.stopOffset := by
  obtain ⟨before, seg, after, -, hseg⟩ := exists_seg_of_mem_preorder hn hx
  rw [hseg.bounds]
  rfl

theorem stopOffset_of_spells {seg : List Glyph}
    (h : d.Spells (c.mark.after d before).position seg x) :
    x.bounds.stopOffset = (c.mark.after d (before ++ seg)).position := by
  rw [h.bounds, Bounds.stopOffset_between, Mark.after_append]
  exact (Mark.position_after_eq rfl seg).symm

/-- Nothing but blanks lies between the end of a node and the place where it is reported on. -/
theorem faces_chart_behind (hc : c.mark.position ≤ c.size)
    (hn : (c.parse d false).outcome = .ok n) (hx : x ∈ n.preorder) :
    ∃ blanks rest, Faces ⟨c.buffer, (c.chart d).behind x.bounds.stopOffset⟩ rest ∧
      (∀ g ∈ blanks, d.isBlank g = true) ∧ (∀ g ∈ rest.head?, d.isBlank g = false) ∧
      ((c.chart d).behind x.bounds.stopOffset).position =
        x.bounds.stopOffset + Glyph.size blanks := by
  obtain ⟨before, seg, after, hsplit, hseg⟩ := exists_seg_of_mem_preorder hn hx
  rw [stopOffset_of_spells hseg]
  have hglyphs : Utf8.glyphs c.rest = (before ++ seg) ++
      (after.takeWhile d.isBlank ++ after.dropWhile d.isBlank) := by
    rw [hsplit, List.takeWhile_append_dropWhile]
  have hfaces : c.Faces ((before ++ seg) ++
      (after.takeWhile d.isBlank ++ after.dropWhile d.isBlank)) := ⟨hc, hglyphs⟩
  have hblanks : ∀ g ∈ after.takeWhile d.isBlank, d.isBlank g = true :=
    fun _ hg => List.mem_takeWhile_imp hg
  have hrest : ∀ g ∈ (after.dropWhile d.isBlank).head?, d.isBlank g = false :=
    fun _ hg => Dialect.eq_false_of_mem_head?_dropWhile hg
  rw [(hfaces.fits_chart d).behind _ _ _ rfl hblanks hrest]
  refine ⟨_, _, ?_, hblanks, hrest, ?_⟩
  · rw [← List.append_assoc] at hfaces
    exact hfaces.after
  · rw [Mark.after_append, Mark.position_after_eq rfl]

/-- That a list has no further element is reported in front of its closing bracket. -/
theorem char_chart_before (hc : c.mark.position ≤ c.size)
    (hn : (c.parse d false).outcome = .ok n) (hx : x ∈ n.preorder) (hlist : x.isList = true) :
    (⟨c.buffer, (c.chart d).before x.bounds.stopOffset⟩ : Cursor).char = .ok d.closing := by
  obtain ⟨before, seg, after, hsplit, hseg⟩ := exists_seg_of_mem_preorder hn hx
  rw [stopOffset_of_spells hseg]
  cases hseg with
  | atom => cases hlist
  | @list _ first last blanks inner _ _ _ _ hlast =>
      have hglyphs : Utf8.glyphs c.rest =
          (before ++ first :: (blanks ++ inner)) ++ last :: after := by
        rw [hsplit]
        simp
      have hfaces : c.Faces ((before ++ first :: (blanks ++ inner)) ++ last :: after) :=
        ⟨hc, hglyphs⟩
      rw [← List.append_assoc before, (hfaces.fits_chart d).before _ _ _ rfl,
        ← Dialect.eq_closing_of_classify hlast]
      exact hfaces.after.char

/-- Recording has no influence on what is read, and nothing is reported without it. With it, what is
reported on a tree is the report on its nodes, each after the nodes inside it: on an atom, the atom;
on a list, that no further element was found, in front of its closing bracket, that this was the
end of the list, and the list. Each of these is printed in a line. A node is reported on where the
blanks that follow it end. -/
theorem trace_follows_tree (d : Dialect) {c : Cursor} (hc : c.mark.position ≤ c.size) :
    (c.parse d false).outcome = (c.parse d true).outcome ∧
    (c.parse d false).cursor = (c.parse d true).cursor ∧
    (c.parse d false).events = [] ∧ (c.parse d false).trace = [] ∧
    c.descend d = pure (c.parse d true) ∧
    ∀ n, (c.parse d true).outcome = .ok n →
      (c.parse d true).events = n.postorder.flatMap (c.chart d).reports ∧
      (c.parse d true).events.map (Event.print c.size) =
        n.postorder.flatMap ((c.chart d).lines c.size) ∧
      (c.parse d true).trace = (n.postorder.flatMap ((c.chart d).lines c.size)).flatten ∧
      (c.parse d true).events.length = n.preorder.length + 2 * n.preorder.countP Tree.isList ∧
      ∀ x ∈ n.preorder, x.bounds.stop = some ↑x.bounds.stopOffset ∧
        (∃ blanks rest, Faces ⟨c.buffer, (c.chart d).behind x.bounds.stopOffset⟩ rest ∧
          (∀ g ∈ blanks, d.isBlank g = true) ∧ (∀ g ∈ rest.head?, d.isBlank g = false) ∧
          ((c.chart d).behind x.bounds.stopOffset).position =
            x.bounds.stopOffset + Glyph.size blanks) ∧
        (x.isList = true →
          (⟨c.buffer, (c.chart d).before x.bounds.stopOffset⟩ : Cursor).char = .ok d.closing) := by
  have hquiet := c.parse_quiet d
  refine ⟨by rw [hquiet], by rw [hquiet], by rw [hquiet], by rw [hquiet]; rfl, descend_eq d hc, ?_⟩
  intro n htrue
  have hn : (c.parse d false).outcome = .ok n := by
    rw [hquiet]
    exact htrue
  have hevents : (c.parse d true).events = n.postorder.flatMap (c.chart d).reports := by
    obtain ⟨blanks, gs, tail, hsplit, hblanks, hspells, htail⟩ := spells_of_parse hn
    have hfaces : c.Faces (blanks ++ gs ++ tail) := ⟨hc, hsplit⟩
    obtain ⟨events, hread, hreports⟩ := Reader.readGlyphs_of_spells hblanks hspells htail
    rw [hreports _ (hfaces.fits_chart d), Cursor.parse, hsplit, hread]
  have hlines : (c.parse d true).events.map (Event.print c.size) =
      n.postorder.flatMap ((c.chart d).lines c.size) := by
    rw [hevents, Chart.map_print_flatMap_reports]
  refine ⟨hevents, hlines, ?_, ?_, fun x hx => ⟨stop_of_mem_preorder hn hx,
    faces_chart_behind hc hn hx, char_chart_before hc hn hx⟩⟩
  · rw [← hlines]
    rfl
  · rw [hevents, Chart.length_flatMap_reports, n.postorder_perm.length_eq,
      n.postorder_perm.countP_eq]

/-- A cursor in front of a list that holds an atom and an empty list: three nodes, two of them
lists. -/
theorem trace_of_list_in_list :
    let c : Cursor := ⟨[0x29, 0x28, 0x61, 0x20, 0x28, 0x29, 0x29, 0x0A], ⟨1, 4, 0⟩⟩
    let n : Node := .list [.atom "a" (.between 2 3), .list [] (.between 4 6)] (.between 1 7)
    c.mark.position ≤ c.size ∧ (c.parse .standard true).outcome = .ok n ∧
      (c.parse .standard true).events = n.postorder.flatMap (c.chart .standard).reports ∧
      (c.parse .standard true).trace =
        (n.postorder.flatMap ((c.chart .standard).lines c.size)).flatten ∧
      (c.parse .standard true).events.length = 7 := by
  intro c n
  have hc : c.mark.position ≤ c.size := by decide
  have hn : (c.parse .standard true).outcome = .ok n := by rfl
  obtain ⟨hevents, -, htrace, hlength, -⟩ := (trace_follows_tree .standard hc).2.2.2.2.2 n hn
  exact ⟨hc, hn, hevents, htrace, hlength⟩

/-- An atom is reported in one line, which is printed when it has been read. -/
example : ((ofBytes [0x61]).parse .standard true).trace =
    "sexp: <At a ::0:1> <Stream 1/1 line 1 column 2>\n" := by
  rfl

end Cursor

end SexpReader
