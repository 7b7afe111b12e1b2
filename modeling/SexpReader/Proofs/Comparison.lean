import SexpReader.Proofs.Widening

/-!
# Comparison by exact value

What is read is a whole number or a double, and what it is compared with is any value. Both are
counted in units of `2 ^ (-1074)`, of which a whole number is a multiple whatever its size, so
nothing has to be rounded to compare them: the counts are the same if and only if the numbers are.
-/

namespace SexpReader

namespace Extended

theorem one_shiftLeft_mul_zpow_neg (k : Nat) : ((1 <<< k : Nat) : ℚ) * 2 ^ (-(k : ℤ)) = 1 := by
  rw [Nat.one_shiftLeft, Nat.cast_pow, Nat.cast_ofNat, zpow_neg, zpow_natCast]
  exact mul_inv_cancel₀ (pow_ne_zero k two_ne_zero)

/-- A whole number is a multiple of the unit. -/
theorem quantity_ofInt (n : Int) : (ofInt n).quantity = .rational n := by
  have hunit : ((1 <<< 1074 : Nat) : ℚ) * unit = 1 := one_shiftLeft_mul_zpow_neg 1074
  rw [ofInt, quantity, Int.cast_mul, Int.cast_natCast, mul_assoc, hunit, mul_one]

end Extended

namespace Value

/-- The exact value of a number. A truth value counts as zero or one. -/
def quantity? : Value → Option Quantity
  | .bool b => some (.rational (if b then 1 else 0))
  | .int n => some (.rational n)
  | .double d => d.quantity?
  | .none | .text _ | .bytes _ => Option.none

/-- The values that have an exact value, and what is not a number among the doubles. -/
inductive IsNumeric : Value → Prop
  | bool (b : Bool) : IsNumeric (.bool b)
  | int (n : Int) : IsNumeric (.int n)
  | double (d : Double) : IsNumeric (.double d)

variable {v w : Value}

theorem quantity?_eq_map (v : Value) : v.quantity? = v.number?.map Extended.quantity := by
  cases v with
  | bool b =>
      change _ = some (Extended.ofInt b.toInt).quantity
      rw [Extended.quantity_ofInt]
      cases b <;> rfl
  | int n =>
      change _ = some (Extended.ofInt n).quantity
      rw [Extended.quantity_ofInt]
      rfl
  | double d => exact d.quantity?_number.symm
  | _ => rfl

theorem IsNumeric.agrees_eq (hv : v.IsNumeric) (w : Value) :
    v.agrees w = match v.number?, w.number? with
      | some x, some y => x == y
      | _, _ => false := by
  cases hv <;> rfl

/-- Numbers agree if they have the same exact value, and only then. -/
theorem IsNumeric.agrees_iff (hv : v.IsNumeric) (w : Value) :
    v.agrees w = true ↔ ∃ q, v.quantity? = some q ∧ w.quantity? = some q := by
  rw [hv.agrees_eq, quantity?_eq_map, quantity?_eq_map]
  cases v.number? with
  | none => simp
  | some x =>
      cases w.number? with
      | none => simp
      | some y =>
          simp only [beq_iff_eq, Option.map_some, Option.some.injEq, exists_eq_left']
          rw [Extended.quantity_injective.eq_iff, eq_comm]

/-- Two values are equal: they are numbers with the same exact value, or they are the same text, the
same bytes or both no value. -/
inductive Matches : Value → Value → Prop
  | number {v w : Value} {q : Quantity} (hv : v.quantity? = some q) (hw : w.quantity? = some q) :
      Matches v w
  | none : Matches .none .none
  | text (t : Text) : Matches (.text t) (.text t)
  | bytes (bs : Bytes) : Matches (.bytes bs) (.bytes bs)

theorem isNumeric_of_quantity? {q : Quantity} (h : v.quantity? = some q) : v.IsNumeric := by
  cases v with
  | bool b => exact .bool b
  | int n => exact .int n
  | double d => exact .double d
  | _ => cases h

theorem IsNumeric.matches_of_agrees (hv : v.IsNumeric) (h : v.agrees w = true) : v.Matches w := by
  obtain ⟨q, hq, hw⟩ := (hv.agrees_iff w).1 h
  exact .number hq hw

/-- Values agree if they are equal, and only then. -/
theorem agrees_iff_matches (v w : Value) : v.agrees w = true ↔ v.Matches w := by
  constructor
  · intro h
    cases v with
    | bool b => exact (IsNumeric.bool b).matches_of_agrees h
    | int n => exact (IsNumeric.int n).matches_of_agrees h
    | double d => exact (IsNumeric.double d).matches_of_agrees h
    | none =>
        cases w with
        | none => exact .none
        | _ => cases h
    | text t =>
        cases w with
        | text u =>
            obtain rfl : t = u := eq_of_beq h
            exact .text t
        | _ => cases h
    | bytes bs =>
        cases w with
        | bytes cs =>
            obtain rfl : bs = cs := eq_of_beq h
            exact .bytes bs
        | _ => cases h
  · intro h
    cases h with
    | number hv hw => exact ((isNumeric_of_quantity? hv).agrees_iff w).2 ⟨_, hv, hw⟩
    | none => rfl
    | text t => exact beq_self_eq_true t
    | bytes bs => exact beq_self_eq_true bs

end Value

namespace Kind

/-- The exact value of a number of a kind in its bytes. -/
def quantity? (bs : Bytes) : Kind → Option Quantity
  | char => none
  | byte | uint8 | uint16 | uint32 | uint64 => some (.rational (Endian.readWhole bs false))
  | int8 | int16 | int32 | int64 => some (.rational (Endian.readWhole bs true))
  | float32 => Format.single.quantity? (Endian.read bs)
  | float64 => Format.double.quantity? (Endian.read bs)

variable {k : Kind}

theorem isNumeric_decode (hk : k ≠ .char) (bs : Bytes) : (k.decode bs).IsNumeric := by
  cases k with
  | char => exact (hk rfl).elim
  | float32 | float64 => exact .double _
  | _ => exact .int _

/-- What is read has the exact value of the bytes. -/
theorem quantity?_decode {bs : Bytes} (hlen : bs.length = k.width) :
    (k.decode bs).quantity? = k.quantity? bs := by
  cases k with
  | float32 => exact Double.quantity?_widen _
  | float64 =>
      have hbits := Double.bits_ofPattern (Endian.read_lt_of_length hlen)
      exact congrArg Format.double.quantity? hbits
  | _ => rfl

end Kind

namespace Cursor

variable {c : Cursor} {w : Want} {k : Kind}

theorem expect_fixed (hk : k ≠ .char) (hw : w.Names k) (hle : k.width ≤ c.remaining)
    (expected : Value) :
    c.expect w expected = .ok ((k.decode (c.rest.take k.width)).agrees expected) := by
  rw [expect_eq_map, look_fixed hk hw hle]
  rfl

/-- There is an answer, and it is yes if what is read has the exact value of what is expected. -/
theorem exists_answer (hk : k ≠ .char) (hw : w.Names k) (hle : k.width ≤ c.remaining)
    (expected : Value) :
    ∃ answer, c.expect w expected = .ok answer ∧
      (answer = true ↔ ∃ q, (k.decode (c.rest.take k.width)).quantity? = some q ∧
        expected.quantity? = some q) :=
  ⟨_, expect_fixed hk hw hle expected, (Kind.isNumeric_decode hk _).agrees_iff expected⟩

/-- Nothing that has no exact value is expected. -/
theorem expect_fixed_of_eq_none (hk : k ≠ .char) (hw : w.Names k) (hle : k.width ≤ c.remaining)
    {expected : Value} (hnone : expected.quantity? = none) : c.expect w expected = .ok false := by
  obtain ⟨answer, hanswer, hiff⟩ := exists_answer hk hw hle expected
  rw [hanswer]
  refine congrArg Except.ok (Bool.eq_false_iff.2 fun hyes => ?_)
  obtain ⟨q, -, hq⟩ := hiff.1 hyes
  rw [hnone] at hq
  cases hq

end Cursor

/-- A number is compared by its exact value. What is expected matches if it is a number and denotes
the same rational number or infinity, and nothing is rounded for it: not even a whole number of 64
bits when it is compared with a double. -/
theorem expect_compares_exactly :
    (∀ (c : Cursor) (w : Want) (k : Kind), k ≠ .char → w.Names k → k.width ≤ c.remaining →
      ∃ v, c.get w = .ok v ∧ v.quantity? = k.quantity? (c.rest.take k.width) ∧
        (∀ expected, ∃ answer, c.expect w expected = .ok answer ∧
          (answer = true ↔ ∃ q, v.quantity? = some q ∧ expected.quantity? = some q)) ∧
        c.expect w .none = .ok false ∧ (∀ t, c.expect w (.text t) = .ok false) ∧
          ∀ bs, c.expect w (.bytes bs) = .ok false) ∧
    ∀ (c : Cursor) (w : Want) (k : Kind), k = .int64 ∨ k = .uint64 → w.Names k →
      8 ≤ c.remaining →
      ∃ n, c.get w = .ok (.int n) ∧ k.Holds n ∧ k.encode n = c.rest.take 8 ∧
        ∀ d, ∃ answer, c.expect w (.double d) = .ok answer ∧
          (answer = true ↔ d.quantity? = some (.rational n)) := by
  refine ⟨?_, ?_⟩
  · intro c w k hk hw hle
    refine ⟨_, Cursor.get_fixed hk hw hle, Kind.quantity?_decode (Cursor.length_take_rest hle),
      Cursor.exists_answer hk hw hle, ?_, fun t => ?_, fun bs => ?_⟩
    · exact Cursor.expect_fixed_of_eq_none hk hw hle rfl
    · exact Cursor.expect_fixed_of_eq_none hk hw hle rfl
    · exact Cursor.expect_fixed_of_eq_none hk hw hle rfl
  · intro c w k hk hw hle
    obtain ⟨hwidth, signed, hsigned⟩ : k.width = 8 ∧ ∃ signed, k.signed? = some signed := by
      obtain rfl | rfl := hk
      · exact ⟨rfl, _, rfl⟩
      · exact ⟨rfl, _, rfl⟩
    rw [← hwidth] at hle ⊢
    obtain ⟨n, -, hget, -, hholds, hencode⟩ := Cursor.take_whole hsigned hw hle
    have hne := Kind.ne_char_of_signed? hsigned
    have hdecode : k.decode (c.rest.take k.width) = .int n :=
      Except.ok.inj ((Cursor.get_fixed hne hw hle).symm.trans hget)
    refine ⟨n, hget, hholds, hencode, fun d => ?_⟩
    obtain ⟨answer, hanswer, hiff⟩ := Cursor.exists_answer hne hw hle (.double d)
    rw [hdecode] at hiff
    refine ⟨answer, hanswer, hiff.trans ?_⟩
    exact ⟨fun ⟨q, hn, hd⟩ => hd.trans hn.symm, fun hd => ⟨_, rfl, hd⟩⟩

/-- The number `2 ^ 53 + 1` is not the double `2 ^ 53` to which it would be rounded, and the
negative zero is zero. -/
theorem expect_of_large_whole_and_zero :
    let c := Cursor.ofBytes [0x01, 0x00, 0x00, 0x00, 0x00, 0x00, 0x20, 0x00]
    let c' := Cursor.ofBytes [0x00]
    c.get (.kind .uint64) = .ok (.int (2 ^ 53 + 1)) ∧
      (⟨0x4340000000000000⟩ : Double).quantity? = some (.rational (2 ^ 53)) ∧
      c.expect (.kind .uint64) (.double ⟨0x4340000000000000⟩) = .ok false ∧
      (⟨0x8000000000000000⟩ : Double).negative = true ∧
      c'.expect (.named "int8") (.double ⟨0x8000000000000000⟩) = .ok true := by
  intro c c'
  obtain ⟨hnumbers, hwhole⟩ := expect_compares_exactly
  obtain ⟨n, hget, -, -, hdoubles⟩ :=
    hwhole c (.kind .uint64) .uint64 (.inr rfl) (.inl rfl) (by decide)
  obtain ⟨answer, hanswer, hiff⟩ := hdoubles ⟨0x4340000000000000⟩
  obtain ⟨v, hget', -, hanswers, -⟩ :=
    hnumbers c' (.named "int8") .int8 (by decide) (.inr rfl) (by decide)
  obtain ⟨answer', hanswer', hiff'⟩ := hanswers (.double ⟨0x8000000000000000⟩)
  have hlarge : c.get (.kind .uint64) = .ok (.int (2 ^ 53 + 1)) := rfl
  have hzero : c'.get (.named "int8") = .ok (.int 0) := rfl
  obtain rfl := Value.int.inj (Except.ok.inj (hlarge.symm.trans hget))
  obtain rfl := Except.ok.inj (hzero.symm.trans hget')
  have hno : answer ≠ true := fun hyes => by
    have hquantity := hiff.1 hyes
    revert hquantity
    decide +kernel
  have hyes : answer' = true := hiff'.2 ⟨.rational 0, rfl, by decide +kernel⟩
  rw [hanswer, hanswer', Bool.eq_false_iff.2 hno, hyes]
  exact ⟨hlarge, by decide +kernel, rfl, by decide, rfl⟩

end SexpReader
