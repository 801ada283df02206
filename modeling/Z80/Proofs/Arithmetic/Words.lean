import Z80.Alu
import Z80.Proofs.Arithmetic.Outcome

/-!
# Words combined byte by byte

The sum or difference of two words is that of their low bytes, followed by that of their high bytes
with the carry in between (`sum_joinBytes`, `difference_joinBytes`). The sixteen-bit operations
therefore leave what two operations on the accumulator would leave, apart from the flags that look
at the whole word or are not touched (`wordsByBytes`).
-/

namespace Z80

/-! ## Outcomes for words -/

/-- The outcome for words, from those for their high and low bytes. All that is reported besides the
value is reported of the high bytes. -/
def Outcome.onto (high low : Outcome 8) : Outcome 16 where
  value := joinBytes high.value low.value
  carry := high.carry
  halfCarry := high.halfCarry
  overflow := high.overflow

/-- Only the zero flag looks at the low byte. -/
theorem Outcome.wordFlags_onto (high low : Outcome 8) :
    (high.onto low).wordFlags =
      { high.flags with zero := joinBytes high.value low.value == 0 } := by
  unfold wordFlags flags onto
  rw [highByte_joinBytes]

theorem msb_joinBytes (high low : Byte) : (joinBytes high low).msb = high.msb := by
  rw [joinBytes, BitVec.msb_append, if_neg (by decide)]

theorem not_joinBytes (high low : Byte) : ~~~joinBytes high low = joinBytes (~~~high) (~~~low) :=
  BitVec.not_append

section

variable (leftHigh leftLow rightHigh rightLow : Byte)

theorem halfCarry_joinBytes (resultHigh resultLow : Byte) :
    halfCarry (joinBytes leftHigh leftLow) (joinBytes rightHigh rightLow)
        (joinBytes resultHigh resultLow) =
      halfCarry leftHigh rightHigh resultHigh := by
  unfold halfCarry joinBytes
  rw [BitVec.xor_append, BitVec.xor_append, BitVec.getLsbD_append, if_neg (by decide)]

theorem addOverflow_joinBytes (resultHigh resultLow : Byte) :
    addOverflow (joinBytes leftHigh leftLow) (joinBytes rightHigh rightLow)
        (joinBytes resultHigh resultLow) =
      addOverflow leftHigh rightHigh resultHigh := by
  simp only [addOverflow, msb_joinBytes]

/-- Words are added from their low bytes on. -/
theorem sum_joinBytes (carry : Bool) :
    sum (joinBytes leftHigh leftLow) (joinBytes rightHigh rightLow) carry =
      (sum leftHigh rightHigh (sum leftLow rightLow carry).carry).onto
        (sum leftLow rightLow carry) := by
  have hlow := toNat_sum leftLow rightLow carry
  have hhigh := toNat_sum leftHigh rightHigh (sum leftLow rightLow carry).carry
  have hexact :
      (joinBytes (sum leftHigh rightHigh (sum leftLow rightLow carry).carry).value
          (sum leftLow rightLow carry).value).toNat +
        2 ^ 16 * (sum leftHigh rightHigh (sum leftLow rightLow carry).carry).carry.toNat =
      (joinBytes leftHigh leftLow).toNat + (joinBytes rightHigh rightLow).toNat +
        carry.toNat := by
    simp only [toNat_joinBytes]
    omega
  rw [sum_eq_of_exact _ _ _ hexact, halfCarry_joinBytes, addOverflow_joinBytes]
  rfl

/-- And they are subtracted so. -/
theorem difference_joinBytes (borrow : Bool) :
    difference (joinBytes leftHigh leftLow) (joinBytes rightHigh rightLow) borrow =
      (difference leftHigh rightHigh (difference leftLow rightLow borrow).carry).onto
        (difference leftLow rightLow borrow) := by
  rw [difference_eq (by decide), difference_eq (by decide), difference_eq (by decide),
    not_joinBytes, sum_joinBytes, Bool.not_not]
  rfl

end

/-! ## The operations on words -/

namespace Registers

/-- Combines two words through the accumulator, the low bytes by one operation and the high bytes by
another. -/
def arithmeticBytes (registers : Registers) (onLow onHigh : AluOp) (left right : Word) :
    Word × Registers :=
  let low := { registers with a := lowByte left }.arithmetic onLow (lowByte right)
  let high := { low with a := highByte left }.arithmetic onHigh (highByte right)
  (joinBytes high.a low.a, high)

/-- The operations on words give what two operations on bytes give, each with flags of its own and
without changing any other register. -/
structure WordsByBytes (registers : Registers) (left right : Word) : Prop where
  addCarry :
    let (word, last) := registers.arithmeticBytes .addCarry .addCarry left right
    registers.arithmeticWord .addCarry left right =
      (word, { registers with flags := { last.flags with zero := word == 0 } })
  subtractCarry :
    let (word, last) := registers.arithmeticBytes .subtractCarry .subtractCarry left right
    registers.arithmeticWord .subtractCarry left right =
      (word, { registers with flags := { last.flags with zero := word == 0 } })
  /-- A plain addition starts without a carry and leaves three flags alone. -/
  add :
    let (word, last) := registers.arithmeticBytes .add .addCarry left right
    registers.arithmeticWord .add left right =
      (word, { registers with flags := { last.flags with
        sign := registers.flags.sign
        zero := registers.flags.zero
        parity := registers.flags.parity } })

/-- Two operations on bytes make one on words. -/
theorem wordsByBytes (registers : Registers) (left right : Word) :
    registers.WordsByBytes left right := by
  have hsum := sum_joinBytes (highByte left) (lowByte left) (highByte right) (lowByte right)
  have hdifference :=
    difference_joinBytes (highByte left) (lowByte left) (highByte right) (lowByte right)
  rw [joinBytes_highByte_lowByte, joinBytes_highByte_lowByte] at hsum hdifference
  constructor
  case addCarry =>
    show ((sum left right registers.flags.carry).value,
      { registers with flags := (sum left right registers.flags.carry).wordFlags }) = _
    rw [hsum, Outcome.wordFlags_onto]
    rfl
  case subtractCarry =>
    show ((difference left right registers.flags.carry).value,
      { registers with flags :=
        { (difference left right registers.flags.carry).wordFlags with subtract := true } }) = _
    rw [hdifference, Outcome.wordFlags_onto]
    rfl
  case add =>
    show ((sum left right false).value,
      { registers with
        flags := { registers.flags with
            halfCarry := (sum left right false).halfCarry
            subtract := false
            carry := (sum left right false).carry }.copyXY
          (highByte (sum left right false).value) }) = _
    rw [hsum]
    unfold Outcome.onto
    rw [highByte_joinBytes]
    rfl

end Registers

end Z80
