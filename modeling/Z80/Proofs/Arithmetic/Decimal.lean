import Z80.Proofs.Arithmetic.Binary

/-!
# Decimal arithmetic on numerals

A byte can hold two decimal digits. After binary arithmetic on such bytes the decimal adjustment
turns the result into decimal digits again, and leaves the decimal carry (`countsDecimal_addCarry`,
`countsDecimal_subtractCarry`). It reads from the half carry whether the low digits have met the
sixteen, and that is all it has to know of the operands. Followed by the adjustment, additions and
subtractions with the carry therefore work on decimal numbers of any length
(`combinesDecimals`).
-/

namespace Z80

/-! ## Decimal digits -/

/-- Both digits of a byte are decimal. -/
def IsDecimal (byte : Byte) : Prop :=
  byte.toNat / 16 ≤ 9 ∧ byte.toNat % 16 ≤ 9

/-- `IsDecimal` is decidable by two comparisons. -/
instance (byte : Byte) : Decidable (IsDecimal byte) :=
  inferInstanceAs (Decidable (_ ∧ _))

/-- The number below a hundred that two decimal digits spell. -/
def decimalPair (byte : Byte) : Nat :=
  10 * (byte.toNat / 16) + byte.toNat % 16

/-- The decimal number that the digits of a numeral spell. -/
def Numeral.decimal (numeral : Numeral) : Nat :=
  Nat.ofDigits 100 (numeral.map decimalPair)

/-! ## The adjustment -/

section

variable {a : Byte} {flags : Flags} {low high : Prop} [Decidable low] [Decidable high]
  (hlow : flags.halfCarry = true ∨ 9 < a.toNat % 16 ↔ low)
  (hhigh : flags.carry = true ∨ 0x99 < a.toNat ↔ high)

include hhigh

theorem carry_decimalAdjust :
    (AccumulatorOp.decimalAdjust.apply a flags).2.carry = decide high := by
  show (flags.carry || decide (0x99 < a.toNat)) = decide high
  rw [← decide_eq_decide.2 hhigh, Bool.decide_or, Bool.decide_eq_true]

include hlow

theorem toNat_correction :
    (AccumulatorOp.correction a flags).toNat =
      (if low then 0x06 else 0) + (if high then 0x60 else 0) := by
  have hdigit : (a &&& 0x0F).toNat = a.toNat % 16 := Nat.and_two_pow_sub_one_eq_mod a.toNat 4
  unfold AccumulatorOp.correction
  rw [hdigit]
  simp only [Bool.or_eq_true, decide_eq_true_eq, hlow, hhigh]
  split <;> split <;> rfl

theorem toNat_decimalAdjust_add (hsubtract : flags.subtract = false) :
    (AccumulatorOp.decimalAdjust.apply a flags).1.toNat =
      (a.toNat + ((if low then 0x06 else 0) + (if high then 0x60 else 0))) % 256 := by
  unfold AccumulatorOp.apply
  rw [hsubtract, ← toNat_correction hlow hhigh]
  exact BitVec.toNat_add a _

theorem toNat_decimalAdjust_subtract (hsubtract : flags.subtract = true) :
    (AccumulatorOp.decimalAdjust.apply a flags).1.toNat =
      (256 - ((if low then 0x06 else 0) + (if high then 0x60 else 0)) + a.toNat) % 256 := by
  unfold AccumulatorOp.apply
  rw [hsubtract, ← toNat_correction hlow hhigh]
  exact BitVec.toNat_sub a _

end

/-! ## When to correct -/

section

variable (left right : Byte) (carry : Bool)

/-- The half carry of bytes is a carry out of their low digits. -/
theorem halfCarry_sum_iff :
    (sum left right carry).halfCarry = true ↔
      16 ≤ left.toNat % 16 + right.toNat % 16 + carry.toNat := by
  rw [halfCarry_sum left right carry (by decide)]
  exact decide_eq_true_iff

/-- After a subtraction it is a borrow of the low digits. -/
theorem halfCarry_difference_iff :
    (difference left right carry).halfCarry = true ↔
      left.toNat % 16 < right.toNat % 16 + carry.toNat := by
  have hhalf := halfCarry_sum_iff left (~~~right) (!carry)
  have hcomplement := toNat_not_add right
  have hborrow := toNat_not_add_toNat carry
  rw [difference_eq (by decide), Bool.not_eq_true', Bool.eq_false_iff, ne_eq, hhalf]
  omega

theorem value_byteSum :
    (sum left right carry).value.toNat = (left.toNat + right.toNat + carry.toNat) % 256 :=
  toNat_value_sum left right carry

theorem value_byteDifference :
    (difference left right carry).value.toNat =
      (256 + left.toNat - right.toNat - carry.toNat) % 256 :=
  toNat_value_difference (by decide) left right carry

/-- The low digits of a sum have passed nine if they carry or leave more than nine behind. -/
theorem sum_correctsLow_iff :
    (sum left right carry).halfCarry = true ∨ 9 < (sum left right carry).value.toNat % 16 ↔
      9 < left.toNat % 16 + right.toNat % 16 + carry.toNat := by
  rw [halfCarry_sum_iff, value_byteSum]
  omega

/-- A sum has passed ninety-nine if it carries or is written past `0x99`. -/
theorem sum_correctsHigh_iff :
    (sum left right carry).carry = true ∨ 0x99 < (sum left right carry).value.toNat ↔
      0x99 < left.toNat + right.toNat + carry.toNat := by
  have hleft := left.isLt
  have hright := right.isLt
  have hone := Bool.toNat_le carry
  rw [carry_sum, decide_eq_true_iff, value_byteSum]
  omega

variable {left} (hleft : IsDecimal left)

include hleft

/-- A difference of decimal digits is decimal, unless it borrows. -/
theorem difference_correctsLow_iff :
    (difference left right carry).halfCarry = true ∨
        9 < (difference left right carry).value.toNat % 16 ↔
      left.toNat % 16 < right.toNat % 16 + carry.toNat := by
  unfold IsDecimal at hleft
  have hone := Bool.toNat_le carry
  rw [halfCarry_difference_iff, value_byteDifference]
  omega

theorem difference_correctsHigh_iff :
    (difference left right carry).carry = true ∨
        0x99 < (difference left right carry).value.toNat ↔
      left.toNat < right.toNat + carry.toNat := by
  have hcarry : (difference left right carry).carry = true ↔
      left.toNat < right.toNat + carry.toNat := decide_eq_true_iff
  unfold IsDecimal at hleft
  have hone := Bool.toNat_le carry
  rw [hcarry, value_byteDifference]
  omega

/-! ## One byte -/

variable {right} (hright : IsDecimal right)

include hright

/-- A sum is adjusted to the decimal digits of the sum. -/
theorem decimalAdjust_sum :
    let adjusted := AccumulatorOp.decimalAdjust.apply (sum left right carry).value
      (sum left right carry).flags
    IsDecimal adjusted.1 ∧
      decimalPair adjusted.1 + 100 * adjusted.2.carry.toNat =
        decimalPair left + decimalPair right + carry.toNat := by
  intro adjusted
  have hlow := sum_correctsLow_iff left right carry
  have hhigh := sum_correctsHigh_iff left right carry
  have hresult : adjusted.1.toNat = _ := toNat_decimalAdjust_add hlow hhigh rfl
  have hout : adjusted.2.carry = _ := carry_decimalAdjust hhigh
  have hone := Bool.toNat_le carry
  rw [value_byteSum] at hresult
  rw [hout]
  unfold decimalPair IsDecimal at *
  by_cases hnine : 9 < left.toNat % 16 + right.toNat % 16 + carry.toNat <;>
    by_cases hninety : 0x99 < left.toNat + right.toNat + carry.toNat <;>
    simp only [hnine, hninety, if_true, if_false, decide_true, decide_false, Bool.toNat_true,
      Bool.toNat_false] at hresult ⊢ <;>
    omega

/-- A difference is adjusted to the decimal digits of the difference. -/
theorem decimalAdjust_difference :
    let adjusted := AccumulatorOp.decimalAdjust.apply (difference left right carry).value
      { (difference left right carry).flags with subtract := true }
    IsDecimal adjusted.1 ∧
      decimalPair adjusted.1 + decimalPair right + carry.toNat =
        decimalPair left + 100 * adjusted.2.carry.toNat := by
  intro adjusted
  have hlow := difference_correctsLow_iff right carry hleft
  have hhigh := difference_correctsHigh_iff right carry hleft
  have hresult : adjusted.1.toNat = _ := toNat_decimalAdjust_subtract hlow hhigh rfl
  have hout : adjusted.2.carry = _ := carry_decimalAdjust hhigh
  have hone := Bool.toNat_le carry
  rw [value_byteDifference] at hresult
  rw [hout]
  unfold decimalPair IsDecimal at *
  by_cases hunder : left.toNat % 16 < right.toNat % 16 + carry.toNat <;>
    by_cases hbelow : left.toNat < right.toNat + carry.toNat <;>
    simp only [hunder, hbelow, if_true, if_false, decide_true, decide_false, Bool.toNat_true,
      Bool.toNat_false] at hresult ⊢ <;>
    omega

end

/-- The result of an operation after the adjustment, and the flags. -/
def AluOp.applyDecimal (op : AluOp) (a operand : Byte) (flags : Flags) : Byte × Flags :=
  let (result, flags) := op.apply a operand flags
  AccumulatorOp.decimalAdjust.apply result flags

/-- With the adjustment, an operation counts decimal digits and the carry so many times towards
decimal digits. -/
structure AluOp.CountsDecimal (op : AluOp) (factor : Int) : Prop where
  decimal : ∀ {a operand : Byte} (flags : Flags), IsDecimal a → IsDecimal operand →
    IsDecimal (op.applyDecimal a operand flags).1
  exact : ∀ {a operand : Byte} (flags : Flags), IsDecimal a → IsDecimal operand →
    (decimalPair (op.applyDecimal a operand flags).1 : Int) +
        100 * (factor * (op.applyDecimal a operand flags).2.carry.toNat) =
      decimalPair a + factor * decimalPair operand + factor * flags.carry.toNat

theorem AluOp.countsDecimal_addCarry : AluOp.addCarry.CountsDecimal 1 where
  decimal flags ha hoperand := (decimalAdjust_sum flags.carry ha hoperand).1
  exact {a operand} flags ha hoperand := by
    have hexact : decimalPair (AluOp.addCarry.applyDecimal a operand flags).1 +
          100 * (AluOp.addCarry.applyDecimal a operand flags).2.carry.toNat =
        decimalPair a + decimalPair operand + flags.carry.toNat :=
      (decimalAdjust_sum flags.carry ha hoperand).2
    omega

theorem AluOp.countsDecimal_subtractCarry : AluOp.subtractCarry.CountsDecimal (-1) where
  decimal flags ha hoperand := (decimalAdjust_difference flags.carry ha hoperand).1
  exact {a operand} flags ha hoperand := by
    have hexact : decimalPair (AluOp.subtractCarry.applyDecimal a operand flags).1 +
          decimalPair operand + flags.carry.toNat =
        decimalPair a + 100 * (AluOp.subtractCarry.applyDecimal a operand flags).2.carry.toNat :=
      (decimalAdjust_difference flags.carry ha hoperand).2
    omega

/-! ## All bytes -/

namespace Registers

/-- Combines two bytes through the accumulator and adjusts the result. -/
def combineDecimal (op : AluOp) (registers : Registers) (pair : Byte × Byte) : Byte × Registers :=
  let next := ({ registers with a := pair.1 }.arithmetic op pair.2).accumulate .decimalAdjust
  (next.a, next)

/-- Combines two decimal numerals, one byte of each after the other. -/
def combineDecimals (registers : Registers) (op : AluOp) (left right : Numeral) :
    Numeral × Registers :=
  registers.ascend (combineDecimal op) (left.zip right)

section

variable {op : AluOp} {factor : Int} {left right : Numeral} (registers : Registers)
  (hlength : left.length = right.length)

include hlength

theorem length_combineDecimals :
    (registers.combineDecimals op left right).1.length = left.length :=
  length_ascend_zip registers hlength

variable (hop : op.CountsDecimal factor) (hleft : ∀ byte ∈ left, IsDecimal byte)
  (hright : ∀ byte ∈ right, IsDecimal byte)

include hop hleft hright

omit hlength in
theorem isDecimal_combineDecimals :
    ∀ byte ∈ (registers.combineDecimals op left right).1, IsDecimal byte := by
  refine forall_mem_ascend (fun registers pair hpair => ?_) registers
  obtain ⟨hfirst, hsecond⟩ := List.of_mem_zip hpair
  exact hop.decimal registers.flags (hleft _ hfirst) (hright _ hsecond)

/-- What is counted pair by pair is counted by the decimal numbers. -/
theorem combineDecimals_exact :
    ((registers.combineDecimals op left right).1.decimal : Int) +
        100 ^ left.length *
          (factor * (registers.combineDecimals op left right).2.flags.carry.toNat) =
      left.decimal + factor * right.decimal + factor * registers.flags.carry.toNat := by
  refine ascend_zip_exact registers hlength fun registers pair hpair => ?_
  obtain ⟨hfirst, hsecond⟩ := List.of_mem_zip hpair
  exact hop.exact registers.flags (hleft _ hfirst) (hright _ hsecond)

end

end Registers

/-! ## Sums and differences -/

/-- What the sum of two decimal numerals and a carry leaves: its bytes and the registers. -/
structure Numeral.AddedDecimal (left right : Numeral) (carry : Bool)
    (after : Numeral × Registers) : Prop where
  length : after.1.length = left.length
  decimal : ∀ byte ∈ after.1, IsDecimal byte
  exact : after.1.decimal + 100 ^ left.length * after.2.flags.carry.toNat =
    left.decimal + right.decimal + carry.toNat

/-- What the difference of two decimal numerals and a borrow leaves. -/
structure Numeral.SubtractedDecimal (left right : Numeral) (borrow : Bool)
    (after : Numeral × Registers) : Prop where
  length : after.1.length = left.length
  decimal : ∀ byte ∈ after.1, IsDecimal byte
  exact : (after.1.decimal : Int) - 100 ^ left.length * after.2.flags.carry.toNat =
    left.decimal - right.decimal - borrow.toNat

/-- With an adjustment after every byte, adding and subtracting with the carry add and subtract
decimal numbers. -/
theorem Registers.combinesDecimals (registers : Registers) {left right : Numeral}
    (hlength : left.length = right.length) (hleft : ∀ byte ∈ left, IsDecimal byte)
    (hright : ∀ byte ∈ right, IsDecimal byte) :
    left.AddedDecimal right registers.flags.carry
        (registers.combineDecimals .addCarry left right) ∧
      left.SubtractedDecimal right registers.flags.carry
        (registers.combineDecimals .subtractCarry left right) := by
  have hadd := AluOp.countsDecimal_addCarry
  have hsubtract := AluOp.countsDecimal_subtractCarry
  have hsum := combineDecimals_exact registers hlength hadd hleft hright
  have hdifference := combineDecimals_exact registers hlength hsubtract hleft hright
  refine ⟨⟨length_combineDecimals registers hlength, ?_, ?_⟩,
    ⟨length_combineDecimals registers hlength, ?_, ?_⟩⟩
  · exact isDecimal_combineDecimals registers hadd hleft hright
  · rw [one_mul, one_mul, one_mul] at hsum
    exact_mod_cast hsum
  · exact isDecimal_combineDecimals registers hsubtract hleft hright
  · linear_combination hdifference

/-- From 1000 to 999 and back: the carry and the borrow run through both bytes. -/
theorem Registers.combinesDecimals_through_all_digits :
    let registers : Registers := {}
    let thousand : Numeral := [0x00, 0x10]
    let one : Numeral := [0x01, 0x00]
    thousand.length = one.length ∧ (∀ byte ∈ thousand, IsDecimal byte) ∧
      (∀ byte ∈ one, IsDecimal byte) ∧
      thousand.AddedDecimal one false (registers.combineDecimals .addCarry thousand one) ∧
      thousand.SubtractedDecimal one false
        (registers.combineDecimals .subtractCarry thousand one) ∧
      (registers.combineDecimals .subtractCarry thousand one).1 = [0x99, 0x09] := by
  intro registers thousand one
  have hthousand : ∀ byte ∈ thousand, IsDecimal byte := by decide
  have hone : ∀ byte ∈ one, IsDecimal byte := by decide
  have hlength : thousand.length = one.length := rfl
  obtain ⟨hadded, hsubtracted⟩ := registers.combinesDecimals hlength hthousand hone
  exact ⟨hlength, hthousand, hone, hadded, hsubtracted, by decide⟩

end Z80
