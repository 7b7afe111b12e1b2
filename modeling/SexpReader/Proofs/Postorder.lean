import SexpReader.Proofs.Lexeme
import SexpReader.Proofs.Run

/-!
# What there is to report on a tree

A tree is reported on from the inside: first what it holds, from left to right, and then the tree
itself. `Chart.reports` are the events that belong to a single node. For an atom this is the atom;
for a list there comes before it that no further element was found, in front of the closing
bracket.

The events show places. A `Chart` tells which place belongs to the offset at which a node ends, and
it fits a source if it tells the places that come up while the source is read.
-/

namespace SexpReader

namespace Tree

variable {α : Type}

mutual

/-- The tree itself and all trees inside it, each after the trees inside it. -/
def postorder : Tree α → List (Tree α)
  | .atom v b => [.atom v b]
  | .list xs b => postorderAll xs ++ [.list xs b]
  | .leaf x => [.leaf x]

/-- All trees in a sequence of trees, each after the trees inside it. -/
def postorderAll : List (Tree α) → List (Tree α)
  | [] => []
  | x :: xs => postorder x ++ postorderAll xs

end

mutual

theorem postorder_perm : ∀ t : Tree α, t.postorder.Perm t.preorder
  | .atom _ _ => .refl _
  | .list xs _ => (List.perm_append_singleton _ _).trans ((postorderAll_perm xs).cons _)
  | .leaf _ => .refl _

theorem postorderAll_perm : ∀ xs : List (Tree α), (postorderAll xs).Perm (preorderAll xs)
  | [] => .refl _
  | x :: xs => (postorder_perm x).append (postorderAll_perm xs)

end

/-- The tree is a list. -/
def isList : Tree α → Bool
  | .list _ _ => true
  | _ => false

end Tree

/-- The offset at which a node ends. -/
def Bounds.stopOffset (b : Bounds) : Nat := (b.stop.getD 0).toNat

@[simp] theorem Bounds.stopOffset_between (start stop : Nat) :
    (between start stop).stopOffset = stop := rfl

/-- The places that belong to the offsets of a source. -/
structure Chart where
  /-- The place behind an offset and behind the blanks that follow it. -/
  behind : Nat → Mark
  /-- The place in front of the character that ends at an offset. -/
  before : Nat → Mark

namespace Chart

/-- What is reported on a node when everything inside it has been reported on. -/
def reports (chart : Chart) : Node → List Event
  | .atom v b => [.expression (.ok (.atom v b)) (chart.behind b.stopOffset)]
  | .list xs b =>
    let failure := Reader.endFailure "atom" (chart.before b.stopOffset)
    [.expression (.error failure) (chart.before b.stopOffset), .listEnd failure,
      .expression (.ok (.list xs b)) (chart.behind b.stopOffset)]

variable {d : Dialect} {chart : Chart} {m : Mark} {gs hs : List Glyph}

theorem length_reports (chart : Chart) (n : Node) :
    (chart.reports n).length = if n.isList then 3 else 1 := by
  cases n with
  | atom v b => rfl
  | list xs b => rfl
  | leaf x => exact x.elim

theorem length_flatMap_reports (chart : Chart) (ns : List Node) :
    (ns.flatMap chart.reports).length = ns.length + 2 * ns.countP Tree.isList := by
  induction ns with
  | nil => rfl
  | cons n ns ih =>
      rw [List.flatMap_cons, List.length_append, ih, length_reports, List.length_cons,
        List.countP_cons]
      split <;> omega

/-- The chart tells the places in a source of which the glyphs `gs` lie behind `m`. -/
structure Fits (d : Dialect) (chart : Chart) (m : Mark) (gs : List Glyph) : Prop where
  behind (before blanks after : List Glyph) (hsplit : gs = before ++ (blanks ++ after))
    (hblanks : ∀ g ∈ blanks, d.isBlank g = true) (hafter : ∀ g ∈ after.head?, d.isBlank g = false) :
    chart.behind (m.after d before).position = m.after d (before ++ blanks)
  before (before after : List Glyph) (g : Glyph) (hsplit : gs = before ++ g :: after) :
    chart.before (m.after d (before ++ [g])).position = m.after d before

/-- A chart of a source fits what is left of it. -/
theorem Fits.after (h : chart.Fits d m (gs ++ hs)) : chart.Fits d (m.after d gs) hs where
  behind before blanks after hsplit hblanks hafter := by
    have hwhole := h.behind (gs ++ before) blanks after (by rw [hsplit, List.append_assoc])
      hblanks hafter
    rwa [List.append_assoc, Mark.after_append d m gs, Mark.after_append d m gs] at hwhole
  before before after g hsplit := by
    have hwhole := h.before (gs ++ before) after g (by rw [hsplit, List.append_assoc])
    rwa [List.append_assoc, Mark.after_append d m gs, Mark.after_append d m gs] at hwhole

end Chart

end SexpReader
