import SexpReader.Text.Basic

/-!
# Expressions as trees

A `Tree α` is an atom with its text, a list of trees, or a leaf from `α`. Each atom and each list
may know the byte offsets between which it was read; a tree built by hand need not.

A `Node` is a tree without leaves of another sort: what reading gives when it succeeds. Trees with
leaves are what somebody makes who puts other things into a list.

Bounds say where a node came from and not what it is. `Tree.same` compares two trees without them,
at every depth, and is the `==` of trees; `Tree.unplaced` is the tree with all bounds removed.
-/

namespace SexpReader

/-- The byte offsets between which a node was read, as far as they are known. -/
structure Bounds where
  start : Option Int
  stop : Option Int
deriving DecidableEq

namespace Bounds

/-- The bounds of a node that was not read from anywhere. -/
def unknown : Bounds := ⟨none, none⟩

/-- The bounds of a node read from one offset up to another. -/
def between (start stop : Nat) : Bounds := ⟨some start, some stop⟩

/-- Moves the bounds by `offset` bytes. -/
def shift (offset : Int) (b : Bounds) : Bounds :=
  ⟨b.start.map (· + offset), b.stop.map (· + offset)⟩

end Bounds

/-- An atom with its text, a list, or a leaf of another sort. -/
inductive Tree (α : Type) where
  | atom (value : Text) (bounds : Bounds)
  | list (items : List (Tree α)) (bounds : Bounds)
  | leaf (value : α)

/-- An expression: a tree of atoms and lists alone. -/
abbrev Node := Tree Empty

instance : Inhabited Node := ⟨.list [] .unknown⟩

namespace Tree

variable {α β : Type}

mutual

/-- Equality of trees apart from their bounds, with leaves compared by `eq`. -/
def sameBy (eq : α → α → Bool) : Tree α → Tree α → Bool
  | .atom v _, .atom w _ => v == w
  | .list xs _, .list ys _ => sameAllBy eq xs ys
  | .leaf x, .leaf y => eq x y
  | _, _ => false

/-- Equality of sequences of trees apart from their bounds. -/
def sameAllBy (eq : α → α → Bool) : List (Tree α) → List (Tree α) → Bool
  | [], [] => true
  | x :: xs, y :: ys => sameBy eq x y && sameAllBy eq xs ys
  | _, _ => false

end

/-- Equality of trees apart from their bounds. -/
def same [BEq α] : Tree α → Tree α → Bool := sameBy (· == ·)

instance [BEq α] : BEq (Tree α) := ⟨same⟩

mutual

/-- The tree without any bounds. -/
def unplaced : Tree α → Tree α
  | .atom v _ => .atom v .unknown
  | .list xs _ => .list (unplacedAll xs) .unknown
  | .leaf x => .leaf x

/-- The trees without any bounds. -/
def unplacedAll : List (Tree α) → List (Tree α)
  | [] => []
  | x :: xs => unplaced x :: unplacedAll xs

end

mutual

/-- Moves the bounds of every node by `offset` bytes. -/
def shift (offset : Int) : Tree α → Tree α
  | .atom v b => .atom v (b.shift offset)
  | .list xs b => .list (shiftAll offset xs) (b.shift offset)
  | .leaf x => .leaf x

/-- Moves the bounds of every node in the sequence by `offset` bytes. -/
def shiftAll (offset : Int) : List (Tree α) → List (Tree α)
  | [] => []
  | x :: xs => shift offset x :: shiftAll offset xs

end

mutual

/-- A hash that, like equality, leaves the bounds out. -/
def hashCode : Node → UInt64
  | .atom v _ => mixHash 3 (hash v)
  | .list xs _ => mixHash 5 (hashAll xs)

/-- The hash of a sequence of trees. -/
def hashAll : List Node → UInt64
  | [] => 7
  | x :: xs => mixHash (hashCode x) (hashAll xs)

end

instance : Hashable Node := ⟨hashCode⟩

mutual

/-- The tree itself and all trees inside it, each before the trees inside it. -/
def preorder : Tree α → List (Tree α)
  | .atom v b => [.atom v b]
  | .list xs b => .list xs b :: preorderAll xs
  | .leaf x => [.leaf x]

/-- All trees in a sequence of trees, each before the trees inside it. -/
def preorderAll : List (Tree α) → List (Tree α)
  | [] => []
  | x :: xs => preorder x ++ preorderAll xs

end

/-- The leaves of another sort, from left to right. -/
def leaves (t : Tree α) : List α :=
  t.preorder.filterMap fun
    | .leaf x => some x
    | _ => none

mutual

/-- Puts a tree in the place of every leaf, from left to right. -/
def replaceM {m : Type → Type} [Monad m] (f : α → m (Tree β)) : Tree α → m (Tree β)
  | .atom v b => pure (.atom v b)
  | .list xs b => do
    let ys ← replaceAllM f xs
    pure (.list ys b)
  | .leaf x => f x

/-- Puts a tree in the place of every leaf of a sequence of trees. -/
def replaceAllM {m : Type → Type} [Monad m] (f : α → m (Tree β)) :
    List (Tree α) → m (List (Tree β))
  | [] => pure []
  | x :: xs => do
    let y ← replaceM f x
    let ys ← replaceAllM f xs
    pure (y :: ys)

end

end Tree

/-- An expression among trees that may have leaves of some sort. -/
def Node.toTree {α : Type} (n : Node) : Tree α := Id.run (n.replaceM nofun)

end SexpReader
