import SexpReader.Text.Numeral
import SexpReader.Tree.Fold

/-!
# Turning trees into data

A `Datum` is plain data: texts, numbers, lists and tuples. A `Conversion` is a way to turn a tree
into a datum, and each is a fold over the tree. Of an expression, only the conversion into whole
numbers can fail: at an atom that is no number, or at a list, which never is one. A leaf of
another sort fails with an error that depends on the leaf, when its turn comes.

`Conversion.traced` converts without change and also gives what was passed to the function at each
node, in the order of the calls.
-/

namespace SexpReader

/-- Plain data. -/
inductive Datum where
  | text (t : Text)
  | int (n : Int)
  | list (items : List Datum)
  | tuple (items : List Datum)

namespace Datum

/-- The characters of a text. -/
def chars (t : Text) : List Datum := t.map fun c => .text [c]

/-- A layer without change: a text or a list. -/
def ofLayer : Layer Datum → Datum
  | .atom v => .text v
  | .list ds => .list ds

end Datum

/-- Ways to turn a tree into data. -/
inductive Conversion where
  /-- Texts and lists as they are. -/
  | plain
  /-- Tuples, of characters or of elements. -/
  | tuple
  /-- Lists, of characters or of elements. -/
  | list
  /-- The number of characters or of elements. -/
  | length
  /-- The number that an atom spells. -/
  | integer
  /-- A letter for the sort of node, and the node. -/
  | tag
  /-- The number of nodes. -/
  | count
  /-- The source text. -/
  | join
deriving DecidableEq

namespace Conversion

/-- Why a conversion failed. -/
inductive Error where
  | numeral (error : Numeral.Error)
  | listAsNumber
  /-- There is a leaf of a sort that cannot be converted. -/
  | unconvertible (label : Text)
deriving DecidableEq

/-- The error in a sentence. -/
def Error.message : Error → Text
  | .numeral error => error.message
  | .listAsNumber =>
    "int() argument must be a string, a bytes-like object or a real number, not 'list'"
  | .unconvertible label => "'" ++ label ++ "' object has no attribute 'caste'"

/-- One layer of tuples. -/
def tupleLayer : Layer Datum → Datum
  | .atom v => .tuple (Datum.chars v)
  | .list ds => .tuple ds

/-- One layer of lists. -/
def listLayer : Layer Datum → Datum
  | .atom v => .list (Datum.chars v)
  | .list ds => .list ds

/-- The length of one layer. -/
def lengthLayer : Layer Nat → Nat
  | .atom v => v.length
  | .list ns => ns.length

/-- The number that an atom spells. -/
def integerLayer : Layer Int → Except Error Int
  | .atom v => (Numeral.read v).mapError .numeral
  | .list _ => .error .listAsNumber

/-- One layer with a letter for its sort. -/
def tagLayer : Layer Datum → Datum
  | .atom v => .list [.text "A", .text v]
  | .list ds => .list [.text "L", .list ds]

/-- One layer of the number of nodes. -/
def countLayer : Layer Nat → Nat
  | .atom _ => 1
  | .list ns => 1 + ns.foldr (· + ·) 0

variable {α β : Type}

/-- Folds a tree by a function that cannot fail; only a leaf of another sort can. -/
def foldWith (leaf : α → Error) (f : Layer β → β) (t : Tree α) : Except Error β :=
  t.foldM (fun x => .error (leaf x)) fun l => .ok (f l)

/-- Converts a tree. -/
def run (leaf : α → Error) (c : Conversion) (t : Tree α) : Except Error Datum :=
  match c with
  | .plain => foldWith leaf Datum.ofLayer t
  | .tuple => foldWith leaf tupleLayer t
  | .list => foldWith leaf listLayer t
  | .length => (foldWith leaf lengthLayer t).map fun n => .int n
  | .integer => (t.foldM (fun x => .error (leaf x)) integerLayer).map .int
  | .tag => foldWith leaf tagLayer t
  | .count => (foldWith leaf countLayer t).map fun n => .int n
  | .join => (foldWith leaf Node.renderLayer t).map .text

/-- A layer as it is, noted down. -/
def noted (l : Layer Datum) : StateT (List Datum) (Except Error) Datum := do
  modify (Datum.ofLayer l :: ·)
  return Datum.ofLayer l

/-- Converts a tree without change, and gives the layers in the order in which they came up. -/
def traced (leaf : α → Error) (t : Tree α) : Except Error (Datum × List Datum) := do
  let (d, log) ← (t.foldM (fun x => throw (leaf x)) noted).run []
  return (d, log.reverse)

end Conversion

end SexpReader
