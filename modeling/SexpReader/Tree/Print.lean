import SexpReader.Tree.Basic

/-!
# Printed forms of trees

A tree is printed between angle brackets: an atom as `<At value>` with its text as it stands, a
list as `<( … )>` with its elements between single spaces, and an empty list as `<()>`. On request
each atom and each list also shows its bounds, after two colons. Leaves of another sort have
printed forms of their own.

`Tree.printOnto` puts the printed form in front of a text that is already there, so that no part
of it is copied twice; `Tree.printOnto_eq_append` says that this is all it does. The equations
that give the printed form itself are `Tree.print_atom`, `Tree.print_list_nil` and
`Tree.print_list_cons`.
-/

namespace SexpReader

/-- One end of the bounds, with a word for the unknown. -/
def Bounds.printEnd : Option Int → Text
  | none => "None"
  | some n => Text.ofInt n

/-- The bounds after two colons. -/
def Bounds.print (b : Bounds) : Text :=
  " ::" ++ printEnd b.start ++ ":" ++ printEnd b.stop

/-- The bounds if they are wanted. -/
def Bounds.printIf (wanted : Bool) (b : Bounds) : Text := if wanted then b.print else []

/-- Leaves that have a printed form. -/
class Printed (α : Type) where
  print : α → Text

instance : Printed Empty := ⟨nofun⟩

namespace Tree

variable {α : Type} [Printed α]

mutual

/-- Puts the printed form of a tree in front of a text. -/
def printOnto (placed : Bool) : Tree α → Text → Text
  | .atom v b, after => "<At " ++ (v ++ (b.printIf placed ++ (">" ++ after)))
  | .list [] b, after => "<()" ++ (b.printIf placed ++ (">" ++ after))
  | .list (x :: xs) b, after =>
    "<( " ++ printOnto placed x
      (printRestOnto placed xs (" )" ++ (b.printIf placed ++ (">" ++ after))))
  | .leaf x, after => Printed.print x ++ after

/-- Puts the printed forms of the elements after the first in front of a text, with a space before
each. -/
def printRestOnto (placed : Bool) : List (Tree α) → Text → Text
  | [], after => after
  | x :: xs, after => " " ++ printOnto placed x (printRestOnto placed xs after)

end

/-- The printed form of a tree, with all bounds if `placed` says so. -/
def print (placed : Bool) (t : Tree α) : Text := printOnto placed t []

/-- The printed forms of the elements after the first, with a space before each. -/
def printRest (placed : Bool) (xs : List (Tree α)) : Text :=
  xs.flatMap fun x => " " ++ print placed x

mutual

theorem printOnto_eq_append (placed : Bool) :
    ∀ (t : Tree α) (after : Text), printOnto placed t after = print placed t ++ after
  | .atom v b, after => by simp [print, printOnto]
  | .list [] b, after => by simp [print, printOnto]
  | .list (x :: xs) b, after => by
    simp only [print, printOnto]
    rw [printOnto_eq_append placed x, printOnto_eq_append placed x,
      printRestOnto_eq_append placed xs, printRestOnto_eq_append placed xs]
    simp
  | .leaf x, after => by simp [print, printOnto]

theorem printRestOnto_eq_append (placed : Bool) :
    ∀ (xs : List (Tree α)) (after : Text),
      printRestOnto placed xs after = printRest placed xs ++ after
  | [], after => by simp [printRest, printRestOnto]
  | x :: xs, after => by
    rw [printRestOnto, printOnto_eq_append placed x, printRestOnto_eq_append placed xs]
    simp [printRest]

end

theorem print_atom (placed : Bool) (v : Text) (b : Bounds) :
    print placed (.atom v b : Tree α) = "<At " ++ v ++ b.printIf placed ++ ">" := by
  simp [print, printOnto]

theorem print_list_nil (placed : Bool) (b : Bounds) :
    print placed (.list [] b : Tree α) = "<()" ++ b.printIf placed ++ ">" := by
  simp [print, printOnto]

theorem print_list_cons (placed : Bool) (x : Tree α) (xs : List (Tree α)) (b : Bounds) :
    print placed (.list (x :: xs) b) =
      "<( " ++ print placed x ++ printRest placed xs ++ " )" ++ b.printIf placed ++ ">" := by
  rw [print, printOnto, printOnto_eq_append, printRestOnto_eq_append]
  simp

theorem print_leaf (placed : Bool) (x : α) : print placed (.leaf x) = Printed.print x := by
  simp [print, printOnto]

end Tree

end SexpReader
