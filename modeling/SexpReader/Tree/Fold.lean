import SexpReader.Tree.Basic

/-!
# Folding trees

A `Layer` is an atom or a list whose elements have already been turned into something else.
`Tree.foldM` turns a tree into a result by a function on layers: the elements of a list from left
to right, then the list itself. The function may have effects, so it may fail, and then nothing
that comes later is visited. Leaves of another sort need a function of their own.

`Node.foldM` and `Node.fold` are the folds over expressions, which have no such leaves, and
`Node.render` is the one that writes source text.
-/

namespace SexpReader

/-- An atom, or a list of the results for its elements. -/
inductive Layer (α : Type) where
  | atom (value : Text)
  | list (items : List α)
deriving DecidableEq

namespace Tree

variable {m : Type → Type} [Monad m] {α β : Type}

mutual

/-- Folds a tree, the elements of a list before the list. -/
def foldM (leaf : α → m β) (f : Layer β → m β) : Tree α → m β
  | .atom v _ => f (.atom v)
  | .list xs _ => do
    let ys ← foldAllM leaf f xs
    f (.list ys)
  | .leaf x => leaf x

/-- Folds a sequence of trees from left to right. -/
def foldAllM (leaf : α → m β) (f : Layer β → m β) : List (Tree α) → m (List β)
  | [] => pure []
  | x :: xs => do
    let y ← foldM leaf f x
    let ys ← foldAllM leaf f xs
    pure (y :: ys)

end

end Tree

namespace Node

/-- Folds an expression, the elements of a list before the list. -/
def foldM {m : Type → Type} [Monad m] {α : Type} (f : Layer α → m α) (n : Node) : m α :=
  Tree.foldM nofun f n

/-- Folds an expression by a function without effects. -/
def fold {α : Type} (f : Layer α → α) (n : Node) : α :=
  Id.run (n.foldM fun l => pure (f l))

theorem fold_atom {α : Type} (f : Layer α → α) (v : Text) (b : Bounds) :
    fold f (.atom v b) = f (.atom v) := rfl

theorem foldAllM_pure {α : Type} (f : Layer α → α) (xs : List Node) :
    Id.run (Tree.foldAllM nofun (fun l => pure (f l)) xs) = xs.map (fold f) := by
  induction xs with
  | nil => rfl
  | cons x xs ih =>
    rw [List.map_cons, ← ih]
    rfl

theorem fold_list {α : Type} (f : Layer α → α) (xs : List Node) (b : Bounds) :
    fold f (.list xs b) = f (.list (xs.map (fold f))) := by
  rw [← foldAllM_pure]
  rfl

/-- One layer of source text. -/
def renderLayer : Layer Text → Text
  | .atom v => v
  | .list ts => "(" ++ Text.join " " ts ++ ")"

/-- The expression as source text: an atom as it stands, a list in round brackets with single
spaces between its elements. -/
def render (n : Node) : Text := n.fold renderLayer

end Node

end SexpReader
