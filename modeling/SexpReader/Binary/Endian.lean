import SexpReader.Utf8.Encode

/-!
# Whole numbers in bytes

Numbers of a fixed width are stored with the least significant byte first. A signed number of `w`
bytes is stored as its remainder modulo `2 ^ (8 * w)`. Each reading has its writing beside it.
-/

namespace SexpReader

namespace Endian

/-- The number whose bytes these are, the least significant first. -/
def read : Bytes → Nat
  | [] => 0
  | b :: rest => b.toNat + 256 * read rest

/-- The last `width` bytes of a number, the least significant first. -/
def write : Nat → Nat → Bytes
  | 0, _ => []
  | width + 1, n => UInt8.ofNat (n % 256) :: write width (n / 256)

@[simp] theorem read_nil : read [] = 0 := rfl

@[simp] theorem read_cons (b : UInt8) (rest : Bytes) :
    read (b :: rest) = b.toNat + 256 * read rest := rfl

@[simp] theorem length_write (width n : Nat) : (write width n).length = width := by
  induction width generalizing n with
  | zero => rfl
  | succ width ih => simp [write, ih]

/-- The number of bits in `width` bytes. -/
abbrev bits (width : Nat) : Nat := 8 * width

theorem shiftLeft_bits_succ (n width : Nat) :
    n <<< bits (width + 1) = 256 * n <<< bits width := by
  rw [bits, Nat.mul_succ, Nat.shiftLeft_add, Nat.shiftLeft_eq _ 8, Nat.mul_comm]

theorem read_append (bs cs : Bytes) :
    read (bs ++ cs) = read bs + read cs <<< bits bs.length := by
  induction bs with
  | nil => simp
  | cons b bs ih =>
    rw [List.cons_append, read_cons, read_cons, ih, List.length_cons, shiftLeft_bits_succ,
      Nat.mul_add, Nat.add_assoc]

theorem read_lt (bs : Bytes) : read bs < 1 <<< bits bs.length := by
  induction bs with
  | nil => simp
  | cons b bs ih =>
    have hb := b.toNat_lt
    rw [read_cons, List.length_cons, shiftLeft_bits_succ]
    omega

theorem read_write (width n : Nat) : read (write width n) = n % 1 <<< bits width := by
  induction width generalizing n with
  | zero => simp [write, Nat.mod_one]
  | succ width ih =>
    rw [write, read_cons, ih, shiftLeft_bits_succ, Nat.mod_mul]
    simp

theorem write_read (bs : Bytes) : write bs.length (read bs) = bs := by
  induction bs with
  | nil => rfl
  | cons b bs ih =>
    have hb := b.toNat_lt
    rw [List.length_cons, write, read_cons]
    congr 1
    · rw [Nat.add_mul_mod_self_left, Nat.mod_eq_of_lt hb, UInt8.ofNat_toNat]
    · rw [Nat.add_mul_div_left _ _ (by decide), Nat.div_eq_of_lt hb, Nat.zero_add, ih]

/-- The signed number that is stored as `n` in `width` bytes. -/
def toSigned (width n : Nat) : Int :=
  if n < 1 <<< (bits width - 1) then n else (n : Int) - (1 <<< bits width : Nat)

/-- How a signed number is stored in `width` bytes. -/
def ofSigned (width : Nat) (i : Int) : Nat := (i % (1 <<< bits width : Nat)).toNat

/-- The signed number whose bytes these are. -/
def readSigned (bs : Bytes) : Int := toSigned bs.length (read bs)

/-- The bytes of a signed number. -/
def writeSigned (width : Nat) (i : Int) : Bytes := write width (ofSigned width i)

end Endian

end SexpReader
