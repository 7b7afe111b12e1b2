import SexpReader.Text.Basic

/-!
# Places in a sequence

A place in a sequence of length `n` may be given by a number that counts from the end if it is
negative. `Index.get` takes it as one element and fails outside the sequence; `Index.clamp` takes
it as a bound and never fails. A place that needs more than 64 bits is refused as such.

A `Slice` selects elements by two bounds and a step, all of them optional. A negative step walks
backwards, from the last element unless told otherwise, and a step of zero is refused.
-/

namespace SexpReader

namespace Index

/-- The element at a place; a negative place counts from the end. -/
def get? {α : Type} (xs : List α) (place : Int) : Option α :=
  if place < 0 then
    if place + xs.length < 0 then none else xs[(place + xs.length).toNat]?
  else xs[place.toNat]?

/-- Why there is no element at a place. -/
inductive Error where
  /-- The place is no signed number of 64 bits. -/
  | tooLarge
  /-- The place lies outside the sequence. -/
  | outside
deriving DecidableEq

/-- The error in a sentence. What is said of a place outside the sequence depends on the sort of
sequence. -/
def Error.message (outside : Text) : Error → Text
  | .tooLarge => "cannot fit 'int' into an index-sized integer"
  | .outside => outside

/-- One more than the greatest signed number of 64 bits. -/
def limit : Nat := 0x8000000000000000

/-- The element at a place, or why there is none. -/
def get {α : Type} (xs : List α) (place : Int) : Except Error α :=
  if -limit ≤ place ∧ place < limit then
    match get? xs place with
    | some x => .ok x
    | none => .error .outside
  else .error .tooLarge

/-- The place in a sequence of length `n` that a bound stands for: a negative bound counts from
the end, and no place lies outside the sequence. -/
def clamp (n : Nat) (bound : Int) : Nat :=
  if bound < 0 then (bound + n).toNat else min bound.toNat n

/-- The elements from one bound up to another. -/
def window {α : Type} (xs : List α) (start stop : Int) : List α :=
  (xs.take (clamp xs.length stop)).drop (clamp xs.length start)

end Index

/-- Bounds and a step, each optional. -/
structure Slice where
  start : Option Int
  stop : Option Int
  step : Option Int
deriving DecidableEq

namespace Slice

/-- The one way in which a slice can be wrong: its step is zero. -/
inductive Error where
  | zeroStep
deriving DecidableEq

/-- The places a walk visits: `count` of them from `start` on. -/
def walk (start step : Int) (count : Nat) : List Int :=
  (List.range count).map fun i : Nat => start + step * i

/-- The number of steps of size `step` that fit between two places. -/
def stepsBetween (lo hi : Int) (step : Nat) : Nat :=
  if lo < hi then (hi - lo - 1).toNat / step + 1 else 0

/-- A bound of a backward walk, between the place before the first element and the last. -/
def clampBackward (n : Nat) (bound : Int) : Int :=
  if bound < 0 then max (bound + n) (-1) else min bound (n - 1)

/-- The places of a sequence of length `n` that a slice selects, in the order of the walk. -/
def places (s : Slice) (n : Nat) : Except Error (List Int) :=
  match s.step.getD 1 with
  | 0 => .error .zeroStep
  | .ofNat step =>
    let lo : Int := (s.start.map (Index.clamp n)).getD 0
    let hi : Int := (s.stop.map (Index.clamp n)).getD n
    .ok (walk lo step (stepsBetween lo hi step))
  | .negSucc k =>
    let hi : Int := (s.start.map (clampBackward n)).getD (n - 1)
    let lo : Int := (s.stop.map (clampBackward n)).getD (-1)
    .ok (walk hi (.negSucc k) (stepsBetween lo hi (k + 1)))

/-- The elements that a slice selects. -/
def select {α : Type} (s : Slice) (xs : List α) : Except Error (List α) :=
  (s.places xs.length).map fun is => is.filterMap (Index.get? xs)

end Slice

end SexpReader
