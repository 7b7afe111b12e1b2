/-!
# Binary floating point

A floating point pattern is a sign, an exponent field and a fraction field. `Format.number` gives
what a pattern denotes, exactly: not a number, an infinity, or a sign with a whole number of units
of `2 ^ (-1074)`, of which every finite number of either format is a multiple.

A `Double` is a pattern of 64 bits. `Double.widen` finds the double with the value of a pattern of
32 bits. Its work is to move the exponent to the other bias, and to give the small numbers, which
have no leading one in 32 bits, the one they have in 64.
-/

namespace SexpReader

/-- What a pattern denotes. Zero has a sign too. -/
inductive Number where
  | nan
  | infinite (negative : Bool)
  | finite (negative : Bool) (units : Nat)
deriving DecidableEq

/-- The fields of a pattern. The least positive number of the format is `2 ^ scale` units. -/
structure Format where
  exponentBits : Nat
  fractionBits : Nat
  scale : Nat
deriving DecidableEq

namespace Format

/-- The format of 32 bits; its least positive number is `2 ^ (-149)`. -/
def single : Format := ⟨8, 23, 925⟩

/-- The format of 64 bits; its least positive number is one unit. -/
def double : Format := ⟨11, 52, 0⟩

/-- The sign bit. -/
def negative (f : Format) (pattern : Nat) : Bool :=
  pattern >>> (f.exponentBits + f.fractionBits) % 2 == 1

/-- The exponent field. -/
def exponent (f : Format) (pattern : Nat) : Nat :=
  pattern >>> f.fractionBits % 1 <<< f.exponentBits

/-- The fraction field. -/
def fraction (f : Format) (pattern : Nat) : Nat := pattern % 1 <<< f.fractionBits

/-- The pattern with these fields. -/
def pack (f : Format) (negative : Bool) (exponent fraction : Nat) : Nat :=
  (negative.toNat <<< f.exponentBits + exponent) <<< f.fractionBits + fraction

/-- What a pattern denotes. -/
def number (f : Format) (pattern : Nat) : Number :=
  let e := f.exponent pattern
  let m := f.fraction pattern
  if e = 1 <<< f.exponentBits - 1 then
    if m = 0 then .infinite (f.negative pattern) else .nan
  else if e = 0 then .finite (f.negative pattern) (m <<< f.scale)
  else .finite (f.negative pattern) ((1 <<< f.fractionBits + m) <<< (e - 1) <<< f.scale)

end Format

/-- A floating point number of 64 bits. -/
structure Double where
  bits : BitVec 64
deriving DecidableEq

namespace Double

/-- The double with a pattern of 64 bits. -/
def ofPattern (n : Nat) : Double := ⟨BitVec.ofNat 64 n⟩

/-- What a double denotes. -/
def number (d : Double) : Number := Format.double.number d.bits.toNat

/-- The exponent and fraction fields of a double from those of a pattern of 32 bits. -/
def widenFields (e m : Nat) : Nat × Nat :=
  if e = 255 then (2047, m <<< 29)
  else if e ≠ 0 then (e + 896, m <<< 29)
  else if m = 0 then (0, 0)
  else
    let top := m.log2
    (top + 874, (m - 1 <<< top) <<< (52 - top))

/-- The double with the value of a pattern of 32 bits. -/
def widen (pattern : Nat) : Double :=
  let s := Format.single
  let (e, m) := widenFields (s.exponent pattern) (s.fraction pattern)
  ofPattern (Format.double.pack (s.negative pattern) e m)

end Double

end SexpReader
