import Mathlib.Algebra.Order.Ring.Int
import SexpReader.Binary.Endian

/-!
# Two's complement

The bytes of a number of fixed width hold it up to a multiple of `2 ^ (8 * w)`. A number without a
sign is the remainder itself; a number with a sign is the remainder if it lies in the lower half of
the range, and falls short of it by `2 ^ (8 * w)` if it lies in the upper half. Which half it is,
can be seen from the top bit of the last byte.

Of either sort there is just one number in the range for every sequence of bytes, and its bytes are
these.
-/

namespace SexpReader

namespace Endian

/-- The range of the numbers of `w` bytes, with a sign or without one. -/
def Fits (w : Nat) (n : Int) : Bool → Prop
  | true => -2 ^ (bits w - 1) ≤ n ∧ n < 2 ^ (bits w - 1)
  | false => 0 ≤ n ∧ n < 2 ^ bits w

instance (w : Nat) (n : Int) : (signed : Bool) → Decidable (Fits w n signed)
  | true => inferInstanceAs (Decidable (_ ∧ _))
  | false => inferInstanceAs (Decidable (_ ∧ _))

/-- The number in these bytes, with a sign or without one. -/
def readWhole (bs : Bytes) : Bool → Int
  | true => readSigned bs
  | false => read bs

variable {w n : Nat} {i : Int}

theorem natCast_one_shiftLeft (k : Nat) : ((1 <<< k : Nat) : Int) = 2 ^ k := by
  rw [Nat.one_shiftLeft]
  exact Int.natCast_pow 2 k

/-- The range of a number has two halves. -/
theorem shiftLeft_bits_eq_two_mul (hw : 0 < w) : 1 <<< bits w = 2 * 1 <<< (bits w - 1) := by
  obtain ⟨k, hk⟩ : ∃ k, bits w = k + 1 := Nat.exists_eq_succ_of_ne_zero (by unfold bits; omega)
  rw [hk, Nat.add_sub_cancel, Nat.shiftLeft_succ]

/-- A number is stored as the remainder from which it differs by one range at most. -/
theorem ofSigned_eq (hn : n < 1 <<< bits w) (hi : i = n ∨ i = n - (1 <<< bits w : Nat)) :
    ofSigned w i = n := by
  have hmod : (n : Int) % (1 <<< bits w : Nat) = n :=
    Int.emod_eq_of_lt (Int.natCast_nonneg n) (Int.ofNat_lt.2 hn)
  unfold ofSigned
  rcases hi with rfl | rfl
  · rw [hmod, Int.toNat_natCast]
  · rw [Int.sub_emod_right, hmod, Int.toNat_natCast]

theorem toSigned_eq_or (w n : Nat) :
    toSigned w n = n ∨ toSigned w n = n - (1 <<< bits w : Nat) := by
  unfold toSigned
  split
  · exact .inl rfl
  · exact .inr rfl

theorem ofSigned_toSigned (hn : n < 1 <<< bits w) : ofSigned w (toSigned w n) = n :=
  ofSigned_eq hn (toSigned_eq_or w n)

theorem fits_toSigned (hw : 0 < w) (hn : n < 1 <<< bits w) : Fits w (toSigned w n) true := by
  have htwo := shiftLeft_bits_eq_two_mul hw
  unfold Fits toSigned
  rw [← natCast_one_shiftLeft]
  generalize 1 <<< (bits w - 1) = half at htwo ⊢
  constructor <;> split <;> omega

theorem toSigned_ofSigned (hw : 0 < w) (hi : Fits w i true) : toSigned w (ofSigned w i) = i := by
  have htwo := shiftLeft_bits_eq_two_mul hw
  unfold Fits at hi
  rw [← natCast_one_shiftLeft] at hi
  -- A negative number is stored as the number one range above it.
  obtain ⟨n, hn, hin⟩ : ∃ n : Nat, n < 1 <<< bits w ∧
      (i = n ∨ i = n - (1 <<< bits w : Nat)) := by
    rcases Int.lt_or_le i 0 with hneg | hnn
    · refine ⟨(i + (1 <<< bits w : Nat)).toNat, ?_, .inr ?_⟩ <;> omega
    · refine ⟨i.toNat, ?_, .inl ?_⟩ <;> omega
  rw [ofSigned_eq hn hin]
  unfold toSigned
  split <;> omega

theorem length_writeSigned (w : Nat) (i : Int) : (writeSigned w i).length = w :=
  length_write w _

theorem fits_readWhole {bs : Bytes} (hbs : bs ≠ []) (signed : Bool) :
    Fits bs.length (readWhole bs signed) signed := by
  have hlt := read_lt bs
  cases signed with
  | true => exact fits_toSigned (List.length_pos_iff.2 hbs) hlt
  | false =>
      refine ⟨Int.natCast_nonneg _, ?_⟩
      rw [← natCast_one_shiftLeft]
      exact Int.ofNat_lt.2 hlt

/-- The bytes of the number that is read are the bytes it is read from. -/
theorem writeSigned_readWhole (bs : Bytes) (signed : Bool) :
    writeSigned bs.length (readWhole bs signed) = bs := by
  have hof : ofSigned bs.length (readWhole bs signed) = read bs := by
    cases signed with
    | true => exact ofSigned_toSigned (read_lt bs)
    | false => exact ofSigned_eq (read_lt bs) (.inl rfl)
  rw [writeSigned, hof, write_read]

/-- The number that is read from the bytes of a number is this number, if it is in the range. -/
theorem readWhole_writeSigned (hw : 0 < w) {signed : Bool} (hi : Fits w i signed) :
    readWhole (writeSigned w i) signed = i := by
  have hlt : ofSigned w i < 1 <<< bits w := by
    have hpos : (0 : Int) < (1 <<< bits w : Nat) := by
      rw [natCast_one_shiftLeft]
      exact Int.pow_pos (by decide)
    have hmod := Int.emod_lt_of_pos i hpos
    unfold ofSigned
    omega
  have hread : read (writeSigned w i) = ofSigned w i := by
    rw [writeSigned, read_write, Nat.mod_eq_of_lt hlt]
  cases signed with
  | true =>
      change toSigned (writeSigned w i).length (read (writeSigned w i)) = i
      rw [length_writeSigned, hread, toSigned_ofSigned hw hi]
  | false =>
      obtain ⟨hlow, hhigh⟩ := hi
      rw [← natCast_one_shiftLeft] at hhigh
      have hof : ofSigned w i = i.toNat := ofSigned_eq (by omega) (.inl (by omega))
      change ((read (writeSigned w i) : Nat) : Int) = i
      rw [hread, hof, Int.toNat_of_nonneg hlow]

/-- The upper half of the range is where the top bit of the last byte is set. -/
theorem shiftLeft_le_read_iff (bs : Bytes) (last : UInt8) :
    1 <<< (bits (bs ++ [last]).length - 1) ≤ read (bs ++ [last]) ↔
      last.toNat.testBit 7 = true := by
  have hlt := read_lt bs
  have hlast := last.toNat_lt
  have hhalf : 1 <<< (bits (bs ++ [last]).length - 1) = 128 * 1 <<< bits bs.length := by
    have hbits : bits (bs ++ [last]).length - 1 = bits bs.length + 7 := by
      rw [List.length_append, List.length_singleton]
      unfold bits
      omega
    rw [hbits, Nat.shiftLeft_add, Nat.shiftLeft_eq _ 7, Nat.mul_comm]
  have hread : read (bs ++ [last]) = read bs + last.toNat * 1 <<< bits bs.length := by
    rw [read_append, read_cons, read_nil, Nat.mul_zero, Nat.add_zero, Nat.shiftLeft_eq,
      Nat.one_shiftLeft]
  have hbit : last.toNat.testBit 7 = true ↔ 128 ≤ last.toNat := by
    rw [Nat.testBit_eq_decide_div_mod_eq, decide_eq_true_iff]
    omega
  rw [hhalf, hread, hbit]
  constructor
  · intro h
    refine Nat.le_of_not_lt fun hless => ?_
    -- All the other bytes together are less than one unit of the last.
    have hmul : last.toNat * 1 <<< bits bs.length ≤ 127 * 1 <<< bits bs.length :=
      Nat.mul_le_mul_right _ (by omega)
    omega
  · intro h
    exact Nat.le_trans (Nat.mul_le_mul_right _ h) (Nat.le_add_left _ _)

/-- The two readings of the same bytes. -/
theorem readWhole_false_sub_true {bs : Bytes} {last : UInt8} (hlast : bs.getLast? = some last) :
    readWhole bs false - readWhole bs true =
      if last.toNat.testBit 7 then 2 ^ bits bs.length else 0 := by
  obtain ⟨front, rfl⟩ := List.getLast?_eq_some_iff.1 hlast
  have htop := shiftLeft_le_read_iff front last
  change ((read (front ++ [last]) : Nat) : Int) - toSigned _ (read (front ++ [last])) = _
  rw [← natCast_one_shiftLeft]
  unfold toSigned
  by_cases h : last.toNat.testBit 7 = true
  · rw [if_pos h, if_neg (Nat.not_lt.2 (htop.2 h)), Int.sub_sub_self]
  · rw [if_neg h, if_pos (Nat.lt_of_not_le fun hle => h (htop.1 hle)), Int.sub_self]

end Endian

end SexpReader
