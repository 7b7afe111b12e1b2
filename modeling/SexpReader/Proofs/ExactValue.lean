import Mathlib.Algebra.Order.Ring.Int
import Mathlib.Algebra.Order.Field.Rat
import Mathlib.Tactic.Ring
import SexpReader.Value

/-!
# Exact values

A floating point pattern of a sign `s`, an exponent field `e` and a fraction field `m` of `p` bits
denotes the rational number `(-1) ^ s * 2 ^ (e - bias) * (1 + m / 2 ^ p)`, unless `e` is zero or as
large as it can be. If `e` is zero, the one is left out and the exponent is the least one; if it is
as large as it can be, the pattern is an infinity or not a number. This is how the formats are
defined, and `Format.quantity?` says so; `Format.number` gives the same in units of `2 ^ (-1074)`.
-/

namespace SexpReader

/-- A rational number or one of the two infinities. -/
inductive Quantity where
  | rational (q : ℚ)
  | infinite (negative : Bool)
deriving DecidableEq

/-- A sign as a factor. -/
def signFactor (negative : Bool) : ℚ := if negative then -1 else 1

namespace Format

/-- What is added to the exponent in the exponent field. -/
def bias (f : Format) : Nat := 2 ^ (f.exponentBits - 1) - 1

/-- The pattern is not a number. -/
def IsNan (f : Format) (pattern : Nat) : Prop :=
  f.exponent pattern = 2 ^ f.exponentBits - 1 ∧ f.fraction pattern ≠ 0

instance (f : Format) : DecidablePred f.IsNan := fun _ => inferInstanceAs (Decidable (_ ∧ _))

/-- What a pattern denotes. Both zeros denote the same. -/
def quantity? (f : Format) (pattern : Nat) : Option Quantity :=
  let sign := signFactor (f.negative pattern)
  let e : ℤ := f.exponent pattern
  let part : ℚ := f.fraction pattern / 2 ^ f.fractionBits
  if f.exponent pattern = 2 ^ f.exponentBits - 1 then
    if f.fraction pattern = 0 then some (.infinite (f.negative pattern)) else none
  else if f.exponent pattern = 0 then some (.rational (sign * 2 ^ (1 - f.bias : ℤ) * part))
  else some (.rational (sign * 2 ^ (e - f.bias) * (1 + part)))

/-- The least positive number of the format is as many units as it should be. -/
def IsScaled (f : Format) : Prop := f.bias + f.fractionBits + f.scale = 1075

theorem isScaled_single : single.IsScaled := rfl

theorem isScaled_double : double.IsScaled := rfl

end Format

/-- The unit in which numbers are counted. -/
def unit : ℚ := 2 ^ (-1074 : ℤ)

theorem unit_ne_zero : unit ≠ 0 := zpow_ne_zero _ two_ne_zero

/-- What a number of units denotes. -/
def Extended.quantity : Extended → Quantity
  | .finite units => .rational (units * unit)
  | .infinite negative => .infinite negative

theorem Extended.quantity_injective : Function.Injective Extended.quantity := by
  intro x y h
  cases x with
  | finite units =>
      cases y with
      | finite units' =>
          have hunits := mul_right_cancel₀ unit_ne_zero (Quantity.rational.inj h)
          rw [Int.cast_injective hunits]
      | infinite => cases h
  | infinite =>
      cases y with
      | finite => cases h
      | infinite => rw [Quantity.infinite.inj h]

/-- What a number denotes. -/
def Number.quantity? (n : Number) : Option Quantity :=
  (Extended.ofNumber? n).map Extended.quantity

theorem Number.quantity?_finite (negative : Bool) (units : Nat) :
    (Number.finite negative units).quantity? =
      some (.rational (signFactor negative * units * unit)) := by
  cases negative with
  | false =>
      change some (Quantity.rational (((units : ℤ) : ℚ) * unit)) = _
      rw [signFactor, if_neg Bool.false_ne_true, one_mul, Int.cast_natCast]
  | true =>
      change some (Quantity.rational (((-(units : ℤ) : ℤ) : ℚ) * unit)) = _
      rw [signFactor, if_pos rfl, neg_one_mul, Int.cast_neg, Int.cast_natCast]

namespace Format

variable {f : Format}

/-- A unit of the fraction field with the exponent field `k + 1`. -/
theorem IsScaled.two_zpow_div (h : f.IsScaled) (k : Nat) :
    (2 : ℚ) ^ ((k : ℤ) + 1 - f.bias) / 2 ^ f.fractionBits = 2 ^ k * 2 ^ f.scale * unit := by
  have hexponent : (k : ℤ) + 1 - f.bias = k + f.scale + -1074 + f.fractionBits := by
    unfold IsScaled at h
    omega
  have htwo : (2 : ℚ) ≠ 0 := two_ne_zero
  rw [hexponent, zpow_add₀ htwo, zpow_natCast, mul_div_cancel_right₀ _ (pow_ne_zero _ htwo),
    zpow_add₀ htwo, zpow_add₀ htwo, zpow_natCast, zpow_natCast]
  rfl

/-- Both ways to say what a pattern denotes agree. -/
theorem IsScaled.quantity?_number (h : f.IsScaled) (pattern : Nat) :
    (f.number pattern).quantity? = f.quantity? pattern := by
  unfold number quantity?
  dsimp only
  rw [Nat.one_shiftLeft]
  by_cases hlast : f.exponent pattern = 2 ^ f.exponentBits - 1
  · rw [if_pos hlast, if_pos hlast]
    by_cases hm : f.fraction pattern = 0
    · rw [if_pos hm, if_pos hm]
      rfl
    · rw [if_neg hm, if_neg hm]
      rfl
  · rw [if_neg hlast, if_neg hlast]
    generalize f.fraction pattern = m
    by_cases hzero : f.exponent pattern = 0
    · have hunit := h.two_zpow_div 0
      rw [Nat.cast_zero, zero_add, pow_zero, one_mul] at hunit
      rw [if_pos hzero, if_pos hzero, Number.quantity?_finite, Nat.shiftLeft_eq]
      push_cast
      rw [mul_assoc, mul_assoc, mul_assoc, ← hunit]
      congr 3
      ring
    · obtain ⟨k, hk⟩ : ∃ k, f.exponent pattern = k + 1 := Nat.exists_eq_succ_of_ne_zero hzero
      have hpow : (2 : ℚ) ^ f.fractionBits ≠ 0 := pow_ne_zero _ two_ne_zero
      have hunit := (div_eq_iff hpow).1 (h.two_zpow_div k)
      have hone : (2 : ℚ) ^ f.fractionBits + m =
          2 ^ f.fractionBits * (1 + m / 2 ^ f.fractionBits) := by
        rw [mul_add, mul_one, mul_div_cancel₀ _ hpow]
      rw [if_neg hzero, if_neg hzero, hk, Nat.add_sub_cancel, Number.quantity?_finite,
        Nat.shiftLeft_eq, Nat.shiftLeft_eq, Nat.one_shiftLeft]
      push_cast
      rw [hone, hunit]
      congr 2
      ring

end Format

namespace Double

/-- The sign bit of a double. -/
def negative (d : Double) : Bool := Format.double.negative d.bits.toNat

/-- The exact value of a double, if it is a number. -/
def quantity? (d : Double) : Option Quantity := Format.double.quantity? d.bits.toNat

theorem quantity?_number (d : Double) : d.number.quantity? = d.quantity? :=
  Format.isScaled_double.quantity?_number _

end Double

end SexpReader
