import Z80.Proofs.Arithmetic.Numerals

/-!
# Binary arithmetic on numerals

Adding or subtracting with the carry, byte by byte from the lowest, adds or subtracts whole numbers
(`combinesNumerals`). The carry that is left is that of the numbers, and since it is the top byte
that decides about the sign and the overflow, so are these: after a subtraction the flags tell
which of two numbers is the smaller, with and without a sign.
-/

namespace Z80

/-! ## One byte -/

/-- An operation counts its operand and the carry so many times towards the result, and its flags
are those of the result. -/
structure AluOp.Counts (op : AluOp) (factor : Int) : Prop where
  exact : ∀ (a operand : Byte) (flags : Flags),
    ((op.apply a operand flags).1.toNat : Int) +
        256 * (factor * (op.apply a operand flags).2.carry.toNat) =
      a.toNat + factor * operand.toNat + factor * flags.carry.toNat
  sign : ∀ (a operand : Byte) (flags : Flags),
    (op.apply a operand flags).2.sign = (op.apply a operand flags).1.msb
  overflow : ∀ (a operand : Byte) (flags : Flags),
    (op.apply a operand flags).2.parity = true ↔
      ¬FitsSigned 256 (a.toInt + factor * operand.toInt + factor * flags.carry.toNat)
  subtract : ∀ (a operand : Byte) (flags : Flags),
    (op.apply a operand flags).2.subtract = decide (factor < 0)

theorem AluOp.counts_addCarry : AluOp.addCarry.Counts 1 where
  exact a operand flags := by
    have hlaw := toNat_sum a operand flags.carry
    show ((sum a operand flags.carry).value.toNat : Int) +
      256 * (1 * (sum a operand flags.carry).carry.toNat) = _
    omega
  sign _ _ _ := rfl
  overflow a operand flags := by
    rw [one_mul, one_mul]
    exact overflow_sum_iff a operand flags.carry (by decide)
  subtract _ _ _ := rfl

theorem AluOp.counts_subtractCarry : AluOp.subtractCarry.Counts (-1) where
  exact a operand flags := by
    have hlaw := toNat_difference (by decide) a operand flags.carry
    show ((difference a operand flags.carry).value.toNat : Int) +
      256 * (-1 * (difference a operand flags.carry).carry.toNat) = _
    omega
  sign _ _ _ := rfl
  overflow a operand flags := by
    rw [neg_one_mul, neg_one_mul, ← sub_eq_add_neg, ← sub_eq_add_neg]
    exact overflow_difference_iff (by decide) a operand flags.carry
  subtract _ _ _ := rfl

/-- Where a number has bytes below its top byte, it is the top byte that has to fit. -/
theorem fitsSigned_add_mul_iff {scale low : Nat} (hlow : low < scale) (top : Int) :
    FitsSigned (scale * 256) (low + scale * top) ↔ FitsSigned 256 top := by
  have hscale : (0 : Int) ≤ scale := Int.natCast_nonneg scale
  unfold FitsSigned
  push_cast
  constructor
  · rintro ⟨hlower, hupper⟩
    refine ⟨?_, ?_⟩ <;> by_contra hout
    · have hfar := mul_le_mul_of_nonneg_left (show top ≤ -129 by omega) hscale
      omega
    · have hfar := mul_le_mul_of_nonneg_left (show 128 ≤ top by omega) hscale
      omega
  · rintro ⟨hlower, hupper⟩
    have hfloor := mul_le_mul_of_nonneg_left (show -128 ≤ top by omega) hscale
    have hceiling := mul_le_mul_of_nonneg_left (show top ≤ 127 by omega) hscale
    omega

/-! ## All bytes -/

theorem Numeral.exists_tops {left right : Numeral} (hlength : left.length = right.length)
    (hnonempty : left ≠ []) :
    ∃ leftRest leftTop rightRest rightTop, leftRest.length = rightRest.length ∧
      left = leftRest ++ [leftTop] ∧ right = rightRest ++ [rightTop] := by
  have hother := ne_nil_of_length_eq hlength.symm hnonempty
  obtain ⟨leftRest, leftTop, rfl⟩ := (List.eq_nil_or_concat' left).resolve_left hnonempty
  obtain ⟨rightRest, rightTop, rfl⟩ := (List.eq_nil_or_concat' right).resolve_left hother
  exact ⟨leftRest, leftTop, rightRest, rightTop, by simpa using hlength, rfl, rfl⟩

namespace Registers

/-- Combines two bytes through the accumulator. -/
def combine (op : AluOp) (registers : Registers) (pair : Byte × Byte) : Byte × Registers :=
  let next := { registers with a := pair.1 }.arithmetic op pair.2
  (next.a, next)

/-- Combines two numerals, one byte of each after the other. -/
def combineAll (registers : Registers) (op : AluOp) (left right : Numeral) : Numeral × Registers :=
  registers.ascend (combine op) (left.zip right)

section

variable {op : AluOp} {factor : Int} {left right : Numeral} (registers : Registers)
  (hlength : left.length = right.length)

include hlength

theorem length_combineAll : (registers.combineAll op left right).1.length = left.length :=
  length_ascend_zip registers hlength

/-- The top bytes are combined from what the others have left. -/
theorem combineAll_concat (leftTop rightTop : Byte) :
    registers.combineAll op (left ++ [leftTop]) (right ++ [rightTop]) =
      ((registers.combineAll op left right).1 ++
          [(combine op (registers.combineAll op left right).2 (leftTop, rightTop)).1],
        (combine op (registers.combineAll op left right).2 (leftTop, rightTop)).2) := by
  rw [combineAll, List.zip_append hlength]
  exact ascend_concat registers (leftTop, rightTop)

variable (hop : op.Counts factor)

include hop

/-- What is counted byte by byte is counted by the numbers. -/
theorem combineAll_exact :
    ((registers.combineAll op left right).1.value : Int) +
        256 ^ left.length * (factor * (registers.combineAll op left right).2.flags.carry.toNat) =
      left.value + factor * right.value + factor * registers.flags.carry.toNat :=
  ascend_zip_exact registers hlength fun registers pair _ =>
    hop.exact pair.1 pair.2 registers.flags

variable (hnonempty : left ≠ [])

include hnonempty

theorem sign_combineAll :
    (registers.combineAll op left right).2.flags.sign =
      (registers.combineAll op left right).1.topBit := by
  obtain ⟨left, leftTop, right, rightTop, hlengths, rfl, rfl⟩ :=
    Numeral.exists_tops hlength hnonempty
  rw [combineAll_concat registers hlengths, Numeral.topBit_concat]
  exact hop.sign leftTop rightTop _

theorem subtract_combineAll :
    (registers.combineAll op left right).2.flags.subtract = decide (factor < 0) := by
  obtain ⟨left, leftTop, right, rightTop, hlengths, rfl, rfl⟩ :=
    Numeral.exists_tops hlength hnonempty
  rw [combineAll_concat registers hlengths]
  exact hop.subtract leftTop rightTop _

/-- The numbers overflow where their top bytes do. -/
theorem overflow_combineAll :
    (registers.combineAll op left right).2.flags.parity = true ↔
      ¬FitsSigned (256 ^ left.length)
        (left.signed + factor * right.signed + factor * registers.flags.carry.toNat) := by
  obtain ⟨left, leftTop, right, rightTop, hlengths, rfl, rfl⟩ :=
    Numeral.exists_tops hlength hnonempty
  have hbelow := combineAll_exact registers hlengths hop
  have hsmall := (registers.combineAll op left right).1.value_lt
  rw [length_combineAll registers hlengths] at hsmall
  -- what the bytes below leave is small, and the top bytes decide with the carry from below
  have htotal : Numeral.signed (left ++ [leftTop]) + factor * Numeral.signed (right ++ [rightTop]) +
        factor * registers.flags.carry.toNat =
      (registers.combineAll op left right).1.value +
        ((256 ^ left.length : Nat) : Int) *
          (leftTop.toInt + factor * rightTop.toInt +
            factor * (registers.combineAll op left right).2.flags.carry.toNat) := by
    rw [Numeral.signed_concat, Numeral.signed_concat, ← hlengths]
    push_cast
    linear_combination -hbelow
  rw [combineAll_concat registers hlengths, htotal, List.length_append, List.length_singleton,
    pow_succ, fitsSigned_add_mul_iff hsmall]
  exact hop.overflow leftTop rightTop _

end

end Registers

/-! ## Sums and differences -/

/-- What the sum of two numerals and a carry leaves: its bytes and the registers. -/
structure Numeral.Added (left right : Numeral) (carry : Bool) (after : Numeral × Registers) :
    Prop where
  length : after.1.length = left.length
  exact : after.1.value + 256 ^ left.length * after.2.flags.carry.toNat =
    left.value + right.value + carry.toNat
  sign : after.2.flags.sign = after.1.topBit
  overflow : after.2.flags.parity = true ↔
    ¬FitsSigned (256 ^ left.length) (left.signed + right.signed + carry.toNat)
  subtract : after.2.flags.subtract = false

/-- What the difference of two numerals and a borrow leaves. -/
structure Numeral.Subtracted (left right : Numeral) (borrow : Bool)
    (after : Numeral × Registers) : Prop where
  length : after.1.length = left.length
  exact : (after.1.value : Int) - 256 ^ left.length * after.2.flags.carry.toNat =
    left.value - right.value - borrow.toNat
  sign : after.2.flags.sign = after.1.topBit
  overflow : after.2.flags.parity = true ↔
    ¬FitsSigned (256 ^ left.length) (left.signed - right.signed - borrow.toNat)
  subtract : after.2.flags.subtract = true
  /-- Without a borrow at the beginning, the one at the end tells the smaller number. -/
  below : borrow = false → (after.2.flags.carry = true ↔ left.value < right.value)
  /-- So does the sign for numbers with a sign, unless it has been turned over by an overflow. -/
  belowSigned : borrow = false →
    (after.2.flags.sign ≠ after.2.flags.parity ↔ left.signed < right.signed)

section

variable {left right result : Numeral} {borrow : Bool} (hlength : left.length = right.length)
  (hresult : result.length = left.length)
  (hexact : (result.value : Int) - (256 ^ left.length : Nat) * borrow.toNat =
    left.value - right.value)

include hresult hexact

/-- A difference borrows if the number taken away is the larger one. -/
theorem Numeral.borrow_iff : borrow = true ↔ left.value < right.value := by
  have hsmall := result.value_lt
  rw [hresult] at hsmall
  cases borrow with
  | false =>
      rw [Bool.toNat_false] at hexact
      exact iff_of_false Bool.false_ne_true (by omega)
  | true =>
      rw [Bool.toNat_true] at hexact
      exact iff_of_true rfl (by omega)

include hlength

/-- Its top bit tells the smaller of the two's-complement readings, or their overflow hides it. -/
theorem Numeral.topBit_ne_iff {overflow : Bool} (hnonempty : left ≠ [])
    (hoverflow : overflow = true ↔ ¬FitsSigned (256 ^ left.length) (left.signed - right.signed)) :
    result.topBit ≠ overflow ↔ left.signed < right.signed := by
  have hleft := left.value_lt
  have hright := right.value_lt
  have hsmall := result.value_lt
  have htop : result.topBit = true ↔ 256 ^ result.length ≤ 2 * result.value := by
    rw [topBit_eq_decide (ne_nil_of_length_eq hresult hnonempty)]
    exact decide_eq_true_iff
  have hleftSigned := left.signed_cases
  have hrightSigned := right.signed_cases
  rw [hresult] at hsmall htop
  rw [← hlength] at hright hrightSigned
  -- both readings of the three numbers differ by the scale, so that the rest is linear
  rw [ne_eq, Bool.eq_iff_iff, htop, hoverflow, FitsSigned]
  generalize 256 ^ left.length = scale at *
  cases borrow with
  | false =>
      rw [Bool.toNat_false] at hexact
      omega
  | true =>
      rw [Bool.toNat_true] at hexact
      omega

end

section

variable {left right : Numeral} (registers : Registers) (hlength : left.length = right.length)
  (hnonempty : left ≠ [])

include hlength hnonempty

theorem Registers.added_combineAll :
    left.Added right registers.flags.carry (registers.combineAll .addCarry left right) where
  length := length_combineAll registers hlength
  exact := by
    have hexact := combineAll_exact registers hlength AluOp.counts_addCarry
    rw [one_mul, one_mul, one_mul] at hexact
    exact_mod_cast hexact
  sign := sign_combineAll registers hlength AluOp.counts_addCarry hnonempty
  overflow := by
    have hoverflow := overflow_combineAll registers hlength AluOp.counts_addCarry hnonempty
    rwa [one_mul, one_mul] at hoverflow
  subtract := subtract_combineAll registers hlength AluOp.counts_addCarry hnonempty

theorem Registers.subtracted_combineAll :
    left.Subtracted right registers.flags.carry
      (registers.combineAll .subtractCarry left right) := by
  have hmade : (registers.combineAll .subtractCarry left right).1.length = left.length :=
    length_combineAll registers hlength
  have hexact : ((registers.combineAll .subtractCarry left right).1.value : Int) -
        256 ^ left.length *
          (registers.combineAll .subtractCarry left right).2.flags.carry.toNat =
      left.value - right.value - registers.flags.carry.toNat := by
    linear_combination combineAll_exact registers hlength AluOp.counts_subtractCarry
  have hsign := sign_combineAll registers hlength AluOp.counts_subtractCarry hnonempty
  have hoverflow := overflow_combineAll registers hlength AluOp.counts_subtractCarry hnonempty
  rw [neg_one_mul, neg_one_mul, ← sub_eq_add_neg, ← sub_eq_add_neg] at hoverflow
  constructor
  case length => exact hmade
  case exact => exact hexact
  case sign => exact hsign
  case overflow => exact hoverflow
  case subtract =>
    exact subtract_combineAll registers hlength AluOp.counts_subtractCarry hnonempty
  case below =>
    intro hborrow
    rw [hborrow] at hexact
    exact Numeral.borrow_iff hmade (by simpa using hexact)
  case belowSigned =>
    intro hborrow
    rw [hborrow] at hexact hoverflow
    rw [hsign]
    exact Numeral.topBit_ne_iff hlength hmade (by simpa using hexact) hnonempty
      (by simpa using hoverflow)

end

/-- Adding and subtracting with the carry, byte by byte, add and subtract the numbers. -/
theorem Registers.combinesNumerals (registers : Registers) {left right : Numeral}
    (hlength : left.length = right.length) (hnonempty : left ≠ []) :
    left.Added right registers.flags.carry (registers.combineAll .addCarry left right) ∧
      left.Subtracted right registers.flags.carry
        (registers.combineAll .subtractCarry left right) :=
  ⟨added_combineAll registers hlength hnonempty, subtracted_combineAll registers hlength hnonempty⟩

/-- The largest number with a sign less the smallest one overflows and borrows at the same time. -/
theorem Registers.combinesNumerals_at_the_ends :
    let registers : Registers := {}
    let largest : Numeral := [0xFF, 0x7F]
    let smallest : Numeral := [0x00, 0x80]
    largest.length = smallest.length ∧ largest ≠ [] ∧
      largest.Added smallest false (registers.combineAll .addCarry largest smallest) ∧
      largest.Subtracted smallest false (registers.combineAll .subtractCarry largest smallest) ∧
      (registers.combineAll .subtractCarry largest smallest).1 = [0xFF, 0xFF] ∧
      (registers.combineAll .subtractCarry largest smallest).2.flags.parity = true ∧
      (registers.combineAll .subtractCarry largest smallest).2.flags.carry = true := by
  intro registers largest smallest
  have hlength : largest.length = smallest.length := rfl
  have hnonempty : largest ≠ [] := by decide
  obtain ⟨hadded, hsubtracted⟩ := registers.combinesNumerals hlength hnonempty
  exact ⟨hlength, hnonempty, hadded, hsubtracted, by decide, by decide, by decide⟩

end Z80
