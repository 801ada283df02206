import Mathlib.Algebra.Group.Nat.Defs
import Z80.Arithmetic

/-!
# The laws of sums and differences

At every width a sum and its carry together are exact (`toNat_sum`), the overflow tells whether the
two's-complement reading of the result is (`overflow_sum_iff`), and the half carry is the carry into
the top hexadecimal digit (`halfCarry_sum`). A difference is the sum with the complement, with both
carries turned over (`difference_eq`), so that each law of sums brings one of differences.
-/

namespace Z80

/-! ## Two's complement -/

/-- A number has a two's-complement reading among as many as `size` values. -/
def FitsSigned (size : Nat) (number : Int) : Prop :=
  -(size : Int) ≤ 2 * number ∧ 2 * number < size

/-- `FitsSigned` is decidable by two comparisons. -/
instance (size : Nat) (number : Int) : Decidable (FitsSigned size number) :=
  inferInstanceAs (Decidable (_ ∧ _))

variable {width : Nat}

theorem two_pow_eq_two_mul (hwidth : 0 < width) : 2 ^ width = 2 * 2 ^ (width - 1) := by
  rw [← Nat.pow_succ', Nat.succ_eq_add_one, Nat.sub_add_cancel hwidth]

/-- The top bit is set in the upper half of the values. -/
theorem msb_eq_decide_two_mul (hwidth : 0 < width) (value : BitVec width) :
    value.msb = decide (2 ^ width ≤ 2 * value.toNat) := by
  rw [BitVec.msb_eq_decide, two_pow_eq_two_mul hwidth]
  exact decide_eq_decide.2 (by omega)

/-! ## Sums -/

/-- A carry beyond a range of numbers can be told from the number in the range. -/
theorem eq_of_add_mul_toNat {size first second : Nat} {carry other : Bool} (hfirst : first < size)
    (hsecond : second < size)
    (h : first + size * carry.toNat = second + size * other.toNat) :
    first = second ∧ carry = other := by
  cases carry <;> cases other <;> simp only [Bool.toNat_false, Bool.toNat_true] at h
  · exact ⟨by omega, rfl⟩
  · omega
  · omega
  · exact ⟨by omega, rfl⟩

section

variable (left right : BitVec width) (carry : Bool)

theorem toNat_value_sum :
    (sum left right carry).value.toNat = (left.toNat + right.toNat + carry.toNat) % 2 ^ width := by
  simp [sum, BitVec.toNat_add]

theorem carry_sum :
    (sum left right carry).carry = decide (2 ^ width ≤ left.toNat + right.toNat + carry.toNat) :=
  BitVec.carry_width

/-- The sum and its carry leave nothing out. -/
theorem toNat_sum :
    (sum left right carry).value.toNat + 2 ^ width * (sum left right carry).carry.toNat =
      left.toNat + right.toNat + carry.toNat := by
  have hsmall : left.toNat + right.toNat + carry.toNat < 2 * 2 ^ width := by
    have hone := Bool.toNat_le carry
    omega
  rw [toNat_value_sum, carry_sum]
  by_cases hover : 2 ^ width ≤ left.toNat + right.toNat + carry.toNat
  · rw [decide_eq_true hover, Nat.mod_eq_sub_mod hover, Nat.mod_eq_of_lt (by omega)]
    simp
    omega
  · rw [decide_eq_false hover, Nat.mod_eq_of_lt (by omega)]
    simp

/-- What adds up exactly is the sum. -/
theorem sum_eq_of_exact {value : BitVec width} {out : Bool}
    (hexact : value.toNat + 2 ^ width * out.toNat = left.toNat + right.toNat + carry.toNat) :
    sum left right carry =
      { value
        carry := out
        halfCarry := halfCarry left right value
        overflow := addOverflow left right value } := by
  have hlaw := toNat_sum left right carry
  obtain ⟨hvalue, hcarry⟩ := eq_of_add_mul_toNat (sum left right carry).value.isLt value.isLt
    (hlaw.trans hexact.symm)
  rw [← BitVec.eq_of_toNat_eq hvalue, ← hcarry]
  rfl

theorem halfCarry_sum (hwidth : 0 < width) :
    (sum left right carry).halfCarry = BitVec.carry (width - 4) left right carry := by
  have hbit := BitVec.getLsbD_add_add_bool (show width - 4 < width by omega) left right carry
  -- a bit of the sum is that of the operands and what is carried into it, and twice the operands'
  -- bits leave the carry alone
  show (left ^^^ right ^^^ _).getLsbD (width - 4) = _
  rw [BitVec.getLsbD_xor, BitVec.getLsbD_xor, hbit]
  cases left.getLsbD (width - 4) <;> cases right.getLsbD (width - 4) <;> simp

/-- The sum overflows if the sum of the two's-complement readings is none of its values. -/
theorem overflow_sum_iff (hwidth : 0 < width) :
    (sum left right carry).overflow = true ↔
      ¬FitsSigned (2 ^ width) (left.toInt + right.toInt + carry.toNat) := by
  have hlaw := toNat_sum left right carry
  have hoverflow : (sum left right carry).overflow =
      (left.msb == right.msb && left.msb != (sum left right carry).value.msb) := rfl
  have hleft := left.isLt
  have hright := right.isLt
  have hresult := (sum left right carry).value.isLt
  have hone := Bool.toNat_le carry
  have heven := two_pow_eq_two_mul hwidth
  rw [hoverflow, msb_eq_decide_two_mul hwidth left, msb_eq_decide_two_mul hwidth right,
    msb_eq_decide_two_mul hwidth (sum left right carry).value]
  simp only [Bool.and_eq_true, beq_iff_eq, bne_iff_ne, ne_eq, decide_eq_decide, FitsSigned,
    BitVec.toInt_eq_toNat_cond]
  -- the exact law has the carry as a factor, and is linear once the carry is known
  cases hcarry : (sum left right carry).carry <;>
    simp only [hcarry, Bool.toNat_false, Bool.toNat_true] at hlaw <;> split <;> split <;> omega

end

/-! ## Differences -/

theorem toNat_not_add_toNat (bit : Bool) : (!bit).toNat + bit.toNat = 1 := by
  cases bit <;> rfl

theorem toNat_not_add (value : BitVec width) : (~~~value).toNat + value.toNat + 1 = 2 ^ width := by
  have hvalue := value.isLt
  rw [BitVec.toNat_not]
  omega

theorem toInt_not_eq (hwidth : 0 < width) (value : BitVec width) :
    (~~~value).toInt = -1 - value.toInt := by
  have hcomplement := toNat_not_add value
  have heven := two_pow_eq_two_mul hwidth
  rw [BitVec.toInt_eq_toNat_cond, BitVec.toInt_eq_toNat_cond]
  split <;> split <;> omega

section

variable (hwidth : 0 < width) (left right : BitVec width) (borrow : Bool)

include hwidth

/-- Taking away is adding the complement; a borrow is a carry that fails to appear. -/
theorem difference_eq :
    difference left right borrow =
      { sum left (~~~right) (!borrow) with
        carry := !(sum left (~~~right) (!borrow)).carry
        halfCarry := !(sum left (~~~right) (!borrow)).halfCarry } := by
  have hvalue : left - right - (BitVec.ofBool borrow).setWidth width =
      left + ~~~right + (BitVec.ofBool !borrow).setWidth width := by
    have hzero : (BitVec.ofBool false).setWidth width = 0 := BitVec.eq_of_toNat_eq (by simp)
    have hone : (BitVec.ofBool true).setWidth width = 1 := BitVec.eq_of_toNat_eq (by simp)
    rw [BitVec.not_eq_neg_add]
    cases borrow <;> simp only [Bool.not_false, Bool.not_true, hzero, hone] <;> grind
  have hcarry : decide (left.toNat < right.toNat + borrow.toNat) =
      !BitVec.carry width left (~~~right) (!borrow) := by
    have hcomplement := toNat_not_add right
    have hborrow := toNat_not_add_toNat borrow
    rw [BitVec.carry_width, ← decide_not]
    exact decide_eq_decide.2 (by omega)
  have hhalf : ∀ result, halfCarry left right result = !halfCarry left (~~~right) result := by
    intro result
    have hplace : width - 4 < width := by omega
    simp only [halfCarry, BitVec.getLsbD_xor, BitVec.getLsbD_not]
    simp [hplace]
  have hoverflow : ∀ result,
      subtractOverflow left right result = addOverflow left (~~~right) result := by
    intro result
    rw [subtractOverflow, addOverflow, BitVec.msb_not]
    cases left.msb <;> cases right.msb <;> simp [hwidth]
  simp only [difference, sum, hvalue, hcarry, hhalf, hoverflow]

/-- The difference and its borrow leave nothing out. -/
theorem toNat_difference :
    (difference left right borrow).value.toNat + right.toNat + borrow.toNat =
      left.toNat + 2 ^ width * (difference left right borrow).carry.toNat := by
  have hlaw := toNat_sum left (~~~right) (!borrow)
  have hcomplement := toNat_not_add right
  have hborrow := toNat_not_add_toNat borrow
  rw [difference_eq hwidth]
  dsimp only
  cases hcarry : (sum left (~~~right) (!borrow)).carry <;>
    simp only [hcarry, Bool.not_false, Bool.not_true, Bool.toNat_false, Bool.toNat_true]
      at hlaw ⊢ <;>
    omega

theorem toNat_value_difference :
    (difference left right borrow).value.toNat =
      (2 ^ width + left.toNat - right.toNat - borrow.toNat) % 2 ^ width := by
  have hlaw := toNat_difference hwidth left right borrow
  have hsmall := (difference left right borrow).value.isLt
  cases hcarry : (difference left right borrow).carry with
  | false =>
      rw [hcarry, Bool.toNat_false] at hlaw
      rw [show 2 ^ width + left.toNat - right.toNat - borrow.toNat =
        2 ^ width + (difference left right borrow).value.toNat by omega, Nat.add_mod_left,
        Nat.mod_eq_of_lt hsmall]
  | true =>
      rw [hcarry, Bool.toNat_true] at hlaw
      rw [show 2 ^ width + left.toNat - right.toNat - borrow.toNat =
        (difference left right borrow).value.toNat by omega, Nat.mod_eq_of_lt hsmall]

/-- The difference overflows if the difference of the two's-complement readings is none of its
values. -/
theorem overflow_difference_iff :
    (difference left right borrow).overflow = true ↔
      ¬FitsSigned (2 ^ width) (left.toInt - right.toInt - borrow.toNat) := by
  have hreading : left.toInt + (~~~right).toInt + ((!borrow).toNat : Int) =
      left.toInt - right.toInt - borrow.toNat := by
    have hborrow := toNat_not_add_toNat borrow
    rw [toInt_not_eq hwidth]
    omega
  rw [difference_eq hwidth, ← hreading]
  exact overflow_sum_iff left (~~~right) (!borrow) hwidth

end

end Z80
