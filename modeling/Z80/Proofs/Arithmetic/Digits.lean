import Z80.Machine.Execute
import Z80.Proofs.Arithmetic.Numerals

/-!
# Rotating the digits of numerals

A digit rotation takes a hexadecimal digit from the accumulator into a byte and another one back.
Done to the bytes of a numeral one after the other, it moves all digits of the number by one place:
up from the lowest byte, and down from the highest. Between two bytes the accumulator holds the
digit that the one hands to the other. The two ways undo each other, and the instructions do the
same to a numeral in memory (`rotatesDigits`).
-/

namespace Z80

/-! ## Digits of a byte -/

/-- The low hexadecimal digit. -/
def lowDigit (byte : Byte) : Nat :=
  byte.toNat % 16

/-- The high hexadecimal digit. -/
def highDigit (byte : Byte) : Nat :=
  byte.toNat / 16

/-- The two digits of a byte, the high one first. -/
def HasDigits (byte : Byte) (high low : Nat) : Prop :=
  highDigit byte = high ∧ lowDigit byte = low

theorem lowDigit_lt (byte : Byte) : lowDigit byte < 16 :=
  Nat.mod_lt _ (by decide)

theorem highDigit_lt (byte : Byte) : highDigit byte < 16 :=
  Nat.div_lt_of_lt_mul byte.isLt

theorem toNat_eq_digits (byte : Byte) : byte.toNat = 16 * highDigit byte + lowDigit byte :=
  (Nat.div_add_mod byte.toNat 16).symm

theorem HasDigits.toNat_eq {byte : Byte} {high low : Nat} (hdigits : HasDigits byte high low) :
    byte.toNat = 16 * high + low := by
  rw [toNat_eq_digits, hdigits.1, hdigits.2]

theorem eq_of_digits {first second : Byte} (hhigh : highDigit first = highDigit second)
    (hlow : lowDigit first = lowDigit second) : first = second := by
  apply BitVec.eq_of_toNat_eq
  rw [toNat_eq_digits, hhigh, hlow, ← toNat_eq_digits]

theorem toNat_and_low (byte : Byte) : (byte &&& 0x0F).toNat = lowDigit byte :=
  Nat.and_two_pow_sub_one_eq_mod byte.toNat 4

theorem toNat_and_high : ∀ byte : Byte, (byte &&& 0xF0).toNat = 16 * highDigit byte := by
  decide

theorem toNat_shiftRight_digit (byte : Byte) : (byte >>> 4).toNat = highDigit byte := by
  rw [BitVec.toNat_ushiftRight, Nat.shiftRight_eq_div_pow]
  rfl

theorem toNat_shiftLeft_digit (byte : Byte) : (byte <<< 4).toNat = 16 * lowDigit byte := by
  unfold lowDigit
  rw [BitVec.toNat_shiftLeft, Nat.shiftLeft_eq]
  omega

/-- Two bytes with one digit each, at different places, join to a byte with both. -/
theorem hasDigits_or {first second : Byte} {high low : Nat} (hhigh : first.toNat = 16 * high)
    (hlow : second.toNat = low) (hdigit : low < 16) : HasDigits (first ||| second) high low := by
  have hplace : first.toNat = high <<< 4 := by
    rw [hhigh, Nat.shiftLeft_eq, Nat.mul_comm]
  have hjoined : (first ||| second).toNat = 16 * high + low := by
    rw [BitVec.toNat_or, hplace, hlow, ← Nat.shiftLeft_add_eq_or_of_lt hdigit, ← hplace, hhigh]
  unfold HasDigits highDigit lowDigit
  omega

/-! ## One byte -/

namespace DigitRotation

variable (a value : Byte)

/-- To the left, the low digit of the byte becomes its high one. -/
theorem hasDigits_left :
    HasDigits (left.apply a value).1 (highDigit a) (highDigit value) ∧
      HasDigits (left.apply a value).2 (lowDigit value) (lowDigit a) :=
  ⟨hasDigits_or (toNat_and_high a) (toNat_shiftRight_digit value) (highDigit_lt value),
    hasDigits_or (toNat_shiftLeft_digit value) (toNat_and_low a) (lowDigit_lt a)⟩

/-- To the right, its high digit becomes the low one. -/
theorem hasDigits_right :
    HasDigits (right.apply a value).1 (highDigit a) (lowDigit value) ∧
      HasDigits (right.apply a value).2 (lowDigit a) (highDigit value) := by
  have hentering : ((a &&& 0x0F) <<< 4).toNat = 16 * lowDigit a := by
    rw [toNat_shiftLeft_digit, lowDigit, toNat_and_low, Nat.mod_eq_of_lt (lowDigit_lt a)]
  have hresult := hasDigits_or hentering (toNat_shiftRight_digit value) (highDigit_lt value)
  rw [BitVec.or_comm] at hresult
  exact ⟨hasDigits_or (toNat_and_high a) (toNat_and_low value) (lowDigit_lt value), hresult⟩

/-- On the way up the digit that leaves a byte is worth a byte. -/
theorem toNat_left :
    (left.apply a value).2.toNat + 256 * lowDigit (left.apply a value).1 =
      16 * value.toNat + lowDigit a := by
  obtain ⟨haccumulator, hresult⟩ := hasDigits_left a value
  rw [hresult.toNat_eq, haccumulator.2, toNat_eq_digits value]
  ring

/-- On the way down it is the digit that enters. -/
theorem toNat_right :
    16 * (right.apply a value).2.toNat + lowDigit (right.apply a value).1 =
      value.toNat + 256 * lowDigit a := by
  obtain ⟨haccumulator, hresult⟩ := hasDigits_right a value
  rw [hresult.toNat_eq, haccumulator.2, toNat_eq_digits value]
  ring

theorem highDigit_apply (rotation : DigitRotation) :
    highDigit (rotation.apply a value).1 = highDigit a := by
  cases rotation with
  | left => exact (hasDigits_left a value).1.1
  | right => exact (hasDigits_right a value).1.1

end DigitRotation

/-! ## All bytes -/

namespace Registers

/-- Rotates the digits of a numeral to the left, byte by byte from the lowest one up. -/
def rotateUp (registers : Registers) (numeral : Numeral) : Numeral × Registers :=
  registers.ascend (·.rotateDigit .left ·) numeral

/-- Rotates the digits of a numeral to the right, byte by byte from the highest one down. -/
def rotateDown (registers : Registers) (numeral : Numeral) : Numeral × Registers :=
  registers.descend (·.rotateDigit .right ·) numeral

variable (registers : Registers) (numeral : Numeral)

theorem length_rotateUp : (registers.rotateUp numeral).1.length = numeral.length :=
  length_ascend registers

theorem length_rotateDown : (registers.rotateDown numeral).1.length = numeral.length :=
  length_descend registers

theorem rotateUp_cons (value : Byte) :
    registers.rotateUp (value :: numeral) =
      ((registers.rotateDigit .left value).1 ::
          ((registers.rotateDigit .left value).2.rotateUp numeral).1,
        ((registers.rotateDigit .left value).2.rotateUp numeral).2) :=
  rfl

theorem rotateDown_cons (value : Byte) :
    registers.rotateDown (value :: numeral) =
      (((registers.rotateDown numeral).2.rotateDigit .right value).1 ::
          (registers.rotateDown numeral).1,
        ((registers.rotateDown numeral).2.rotateDigit .right value).2) :=
  rfl

/-- The high digit of the accumulator and the carry stay as they are. -/
theorem kept_rotateUp :
    highDigit (registers.rotateUp numeral).2.a = highDigit registers.a ∧
      (registers.rotateUp numeral).2.flags.carry = registers.flags.carry :=
  ⟨kept_ascend (highDigit ·.a)
      (fun registers value => DigitRotation.highDigit_apply registers.a value .left) registers,
    kept_ascend (·.flags.carry) (fun _ _ => rfl) registers⟩

theorem kept_rotateDown :
    highDigit (registers.rotateDown numeral).2.a = highDigit registers.a ∧
      (registers.rotateDown numeral).2.flags.carry = registers.flags.carry :=
  ⟨kept_descend (highDigit ·.a)
      (fun registers value => DigitRotation.highDigit_apply registers.a value .right) registers,
    kept_descend (·.flags.carry) (fun _ _ => rfl) registers⟩

theorem rotateUp_exact :
    (registers.rotateUp numeral).1.value +
        256 ^ numeral.length * lowDigit (registers.rotateUp numeral).2.a =
      16 * numeral.value + lowDigit registers.a := by
  have hstep : ∀ registers : Registers, ∀ value ∈ numeral,
      ((registers.rotateDigit .left value).1.toNat : Int) +
          256 * lowDigit (registers.rotateDigit .left value).2.a =
        16 * value.toNat + lowDigit registers.a := by
    intro registers value _
    exact_mod_cast DigitRotation.toNat_left registers.a value
  have hexact := ascend_exact (fun byte : Byte => byte.toNat) (fun byte : Byte => 16 * byte.toNat)
    (fun registers : Registers => lowDigit registers.a) hstep registers
  rw [spelled_mul] at hexact
  zify
  rw [Numeral.cast_value, Numeral.cast_value]
  exact hexact

theorem rotateDown_exact :
    16 * (registers.rotateDown numeral).1.value + lowDigit (registers.rotateDown numeral).2.a =
      numeral.value + 256 ^ numeral.length * lowDigit registers.a := by
  have hstep : ∀ registers : Registers, ∀ value ∈ numeral,
      16 * ((registers.rotateDigit .right value).1.toNat : Int) +
          lowDigit (registers.rotateDigit .right value).2.a =
        value.toNat + 256 * lowDigit registers.a := by
    intro registers value _
    exact_mod_cast DigitRotation.toNat_right registers.a value
  have hexact := descend_exact (fun byte : Byte => 16 * byte.toNat) (fun byte : Byte => byte.toNat)
    (fun registers : Registers => lowDigit registers.a) hstep registers
  rw [spelled_mul] at hexact
  zify
  rw [Numeral.cast_value, Numeral.cast_value]
  exact hexact

end Registers

/-! ## One place -/

namespace Numeral

variable {numeral : Numeral} {before : Registers} {after : Numeral × Registers}

/-- What moving the digits of a numeral up by one place leaves. The low digit of the accumulator
enters at the bottom, and the top digit of the number takes its place. -/
structure MovedUp (numeral : Numeral) (before : Registers) (after : Numeral × Registers) :
    Prop where
  length : after.1.length = numeral.length
  value : after.1.value =
    (16 * numeral.value + lowDigit before.a) % 16 ^ (2 * numeral.length)
  leaving : lowDigit after.2.a = numeral.value / 16 ^ (2 * numeral.length - 1)
  accumulator : highDigit after.2.a = highDigit before.a
  carry : after.2.flags.carry = before.flags.carry

/-- What moving them down leaves. The digit enters at the top, and the lowest one leaves. -/
structure MovedDown (numeral : Numeral) (before : Registers) (after : Numeral × Registers) :
    Prop where
  length : after.1.length = numeral.length
  value : after.1.value =
    (numeral.value + lowDigit before.a * 16 ^ (2 * numeral.length)) / 16
  leaving : lowDigit after.2.a = numeral.value % 16
  accumulator : highDigit after.2.a = highDigit before.a
  carry : after.2.flags.carry = before.flags.carry

/-- A numeral has two digits for each byte. -/
theorem pow_digits (numeral : Numeral) : 16 ^ (2 * numeral.length) = 256 ^ numeral.length :=
  pow_mul 16 2 numeral.length

theorem pow_length_eq (hnonempty : numeral ≠ []) :
    256 ^ numeral.length = 16 * 16 ^ (2 * numeral.length - 1) := by
  have hpositive := List.length_pos_iff.2 hnonempty
  rw [← pow_digits, ← pow_succ', Nat.sub_add_cancel (by omega)]

end Numeral

namespace Registers

section

variable (registers : Registers) {numeral : Numeral} (hnonempty : numeral ≠ [])

include hnonempty

theorem movedUp_rotateUp : numeral.MovedUp registers (registers.rotateUp numeral) := by
  have hlength := registers.length_rotateUp numeral
  have hsmall := (registers.rotateUp numeral).1.value_lt
  have hexact := registers.rotateUp_exact numeral
  have hdigit := lowDigit_lt registers.a
  obtain ⟨haccumulator, hcarry⟩ := registers.kept_rotateUp numeral
  rw [hlength] at hsmall
  -- the bytes and the digit that leaves them are the remainder and the quotient of the whole
  obtain ⟨hquotient, hremainder⟩ :=
    (Nat.div_mod_unique (by positivity)).2 ⟨hexact, hsmall⟩
  refine ⟨hlength, ?_, ?_, haccumulator, hcarry⟩
  · rw [Numeral.pow_digits, hremainder]
  · rw [← hquotient, Numeral.pow_length_eq hnonempty, ← Nat.div_div_eq_div_mul]
    congr 1
    omega

theorem movedDown_rotateDown : numeral.MovedDown registers (registers.rotateDown numeral) := by
  have hlength := registers.length_rotateDown numeral
  have hexact := registers.rotateDown_exact numeral
  have hdigit := lowDigit_lt (registers.rotateDown numeral).2.a
  obtain ⟨haccumulator, hcarry⟩ := registers.kept_rotateDown numeral
  refine ⟨hlength, ?_, ?_, haccumulator, hcarry⟩
  · rw [Numeral.pow_digits, Nat.mul_comm (lowDigit _), ← hexact]
    omega
  · rw [Numeral.pow_length_eq hnonempty, Nat.mul_assoc] at hexact
    omega

end

section

variable (registers : Registers) (numeral : Numeral)

/-- Moving the digits down takes back moving them up. -/
theorem rotateDown_rotateUp :
    let (bytes, last) := registers.rotateUp numeral
    (last.rotateDown bytes).1 = numeral ∧ (last.rotateDown bytes).2.a = registers.a := by
  have hlength := registers.length_rotateUp numeral
  have hup := registers.rotateUp_exact numeral
  have hkept := registers.kept_rotateUp numeral
  have hentered := lowDigit_lt registers.a
  generalize registers.rotateUp numeral = there at *
  obtain ⟨bytes, last⟩ := there
  have hdown := last.rotateDown_exact bytes
  have hleft := lowDigit_lt (last.rotateDown bytes).2.a
  -- the law of the way back, with that of the way there put in, is about the numeral alone
  rw [hlength, hup] at hdown
  obtain ⟨hvalue, hdigit⟩ : (last.rotateDown bytes).1.value = numeral.value ∧
      lowDigit (last.rotateDown bytes).2.a = lowDigit registers.a := by omega
  exact ⟨Numeral.eq_of_value_eq ((last.length_rotateDown bytes).trans hlength) hvalue,
    eq_of_digits ((last.kept_rotateDown bytes).1.trans hkept.1) hdigit⟩

/-- Moving them up takes back moving them down. -/
theorem rotateUp_rotateDown :
    let (bytes, last) := registers.rotateDown numeral
    (last.rotateUp bytes).1 = numeral ∧ (last.rotateUp bytes).2.a = registers.a := by
  have hlength := registers.length_rotateDown numeral
  have hdown := registers.rotateDown_exact numeral
  have hkept := registers.kept_rotateDown numeral
  generalize registers.rotateDown numeral = there at *
  obtain ⟨bytes, last⟩ := there
  have hback := (last.length_rotateUp bytes).trans hlength
  have hup := last.rotateUp_exact bytes
  have hsmall := (last.rotateUp bytes).1.value_lt
  rw [hlength, hdown] at hup
  rw [hback] at hsmall
  -- both sides of the law are a numeral of this length with a digit in front
  have hpositive : 0 < 256 ^ numeral.length := by positivity
  obtain ⟨hdigit, hvalue⟩ := (Nat.div_mod_unique hpositive).2 ⟨hup, hsmall⟩
  obtain ⟨hbefore, hnumeral⟩ := (Nat.div_mod_unique hpositive).2 ⟨rfl, numeral.value_lt⟩
  exact ⟨Numeral.eq_of_value_eq hback (hvalue.symm.trans hnumeral),
    eq_of_digits ((last.kept_rotateUp bytes).1.trans hkept.1) (hdigit.symm.trans hbefore)⟩

end

end Registers

/-! ## In memory -/

/-- The registers with another word in `HL`. -/
def Registers.withHL (registers : Registers) (value : Word) : Registers :=
  { registers with hl := value }

namespace Machine

/-- Executes a digit rotation on the byte at an address. -/
def rotateDigitAt (machine : Machine) (rotation : DigitRotation) (address : Word) : Machine :=
  (machine.update (·.withHL address)).execute (.rotateDigit rotation)

/-- Executes a rotation to the left on so many bytes, from an address up. -/
def rotateUpFrom (machine : Machine) (address : Word) : Nat → Machine
  | 0 => machine
  | count + 1 => (machine.rotateDigitAt .left address).rotateUpFrom (address + 1) count

/-- Executes a rotation to the right on so many bytes, down to an address. -/
def rotateDownTo (machine : Machine) (address : Word) : Nat → Machine
  | 0 => machine
  | count + 1 => (machine.rotateDownTo (address + 1) count).rotateDigitAt .right address

/-- Since a starting point, a numeral has been stored from an address on, and the registers hold
what came with it. `HL` has gone elsewhere. -/
structure Stores (before : Machine) (address : Word) (result : Numeral × Registers)
    (after : Machine) : Prop where
  bytes : after.memory.slice address result.1.length = result.1
  elsewhere : ∀ other : Word, result.1.length ≤ (other - address).toNat →
    after.memory.read other = before.memory.read other
  registers : after.registers = result.2.withHL after.registers.hl

variable (machine : Machine) (address : Word) {count : Nat}

theorem registers_rotateDigitAt (rotation : DigitRotation) :
    (machine.rotateDigitAt rotation address).registers =
      (machine.registers.rotateDigit rotation (machine.memory.read address)).2.withHL address :=
  rfl

theorem memory_rotateDigitAt (rotation : DigitRotation) :
    (machine.rotateDigitAt rotation address).memory =
      machine.memory.write address
        (machine.registers.rotateDigit rotation (machine.memory.read address)).1 :=
  rfl

/-- Digit rotations do not notice what is in `HL`. -/
theorem rotateUp_withHL (registers : Registers) (numeral : Numeral) :
    (registers.withHL address).rotateUp numeral =
      ((registers.rotateUp numeral).1, (registers.rotateUp numeral).2.withHL address) :=
  Registers.ascend_change (·.withHL address) (fun _ _ => rfl) registers

theorem rotateDown_withHL (registers : Registers) (numeral : Numeral) :
    (registers.withHL address).rotateDown numeral =
      ((registers.rotateDown numeral).1, (registers.rotateDown numeral).2.withHL address) :=
  Registers.descend_change (·.withHL address) (fun _ _ => rfl) registers

variable {machine address}

/-- A byte is stored in front of others that are stored. -/
theorem stores_cons {after : Machine} {byte : Byte} {bytes : Numeral} {last : Registers}
    (hfirst : after.memory.read address = byte)
    (hrest : after.memory.slice (address + 1) bytes.length = bytes)
    (helsewhere : ∀ other : Word, address ≠ other → bytes.length ≤ (other - (address + 1)).toNat →
      after.memory.read other = machine.memory.read other)
    (hregisters : after.registers = last.withHL after.registers.hl) :
    machine.Stores address (byte :: bytes, last) after := by
  refine ⟨congrArg₂ List.cons hfirst hrest, fun other houtside => ?_, hregisters⟩
  have hcount : bytes.length < (other - address).toNat := houtside
  exact helsewhere other (Memory.ne_of_lt_distance hcount) (by bv_omega)

variable (machine address)

/-- The instructions rotate the bytes in memory as `rotateUp` does those of a numeral. -/
theorem rotateUpFrom_stores (hfits : count ≤ 2 ^ 16) :
    machine.Stores address (machine.registers.rotateUp (machine.memory.slice address count))
      (machine.rotateUpFrom address count) := by
  induction count generalizing machine address with
  | zero => exact ⟨rfl, fun _ _ => rfl, rfl⟩
  | succ count ih =>
      -- the stretch behind the first byte does not reach around to it
      have hbehind : count ≤ (address - (address + 1)).toNat := by bv_omega
      have hstores := ih (machine.rotateDigitAt .left address) (address + 1) (by omega)
      rw [memory_rotateDigitAt, Memory.slice_write_other _ _ hbehind, registers_rotateDigitAt,
        rotateUp_withHL] at hstores
      obtain ⟨hbytes, helsewhere, hregisters⟩ := hstores
      rw [Memory.slice, Registers.rotateUp_cons]
      refine stores_cons ?_ hbytes (fun other hother houtside => ?_) hregisters
      · refine (helsewhere address ?_).trans ?_
        · rwa [Registers.length_rotateUp, Memory.length_slice]
        · rw [memory_rotateDigitAt, Memory.read_write_same]
      · refine (helsewhere other houtside).trans ?_
        rw [memory_rotateDigitAt, Memory.read_write_other _ _ hother]

/-- They rotate them to the right as `rotateDown` does. -/
theorem rotateDownTo_stores (hfits : count ≤ 2 ^ 16) :
    machine.Stores address (machine.registers.rotateDown (machine.memory.slice address count))
      (machine.rotateDownTo address count) := by
  induction count generalizing address with
  | zero => exact ⟨rfl, fun _ _ => rfl, rfl⟩
  | succ count ih =>
      have hstores := ih (address + 1) (by omega)
      have hlength := machine.registers.length_rotateDown
        (machine.memory.slice (address + 1) count)
      rw [Memory.length_slice] at hlength
      rw [Memory.slice, Registers.rotateDown_cons]
      generalize machine.registers.rotateDown (machine.memory.slice (address + 1) count) = rest at *
      obtain ⟨bytes, last⟩ := rest
      obtain ⟨hbytes, helsewhere, hregisters⟩ := hstores
      have hbehind : bytes.length ≤ (address - (address + 1)).toNat := by bv_omega
      have hfirst := helsewhere address hbehind
      refine stores_cons ?_ ?_ (fun other hother houtside => ?_) ?_
      · rw [rotateDownTo, memory_rotateDigitAt, Memory.read_write_same, hfirst, hregisters]
        rfl
      · rw [rotateDownTo, memory_rotateDigitAt, Memory.slice_write_other _ _ hbehind]
        exact hbytes
      · rw [rotateDownTo, memory_rotateDigitAt, Memory.read_write_other _ _ hother]
        exact helsewhere other houtside
      · rw [rotateDownTo, registers_rotateDigitAt, hfirst, hregisters]
        rfl

variable {machine address}

/-- What is stored over a numeral and is what memory held before restores all of memory. -/
theorem Stores.restores {between after : Machine} {there back : Numeral × Registers}
    (hthere : machine.Stores address there between) (hback : between.Stores address back after)
    (hlength : there.1.length = count) (hbytes : back.1 = machine.memory.slice address count) :
    after.memory = machine.memory := by
  have hcount : back.1.length = count := by rw [hbytes, Memory.length_slice]
  have hslice := hback.bytes
  rw [hcount, hbytes] at hslice
  refine Memory.ext_slice hslice fun other houtside => ?_
  exact (hback.elsewhere other (hcount ▸ houtside)).trans
    (hthere.elsewhere other (hlength ▸ houtside))

variable (machine address)

theorem rotateDownTo_rotateUpFrom (hfits : count ≤ 2 ^ 16) :
    ((machine.rotateUpFrom address count).rotateDownTo address count).memory = machine.memory ∧
      ((machine.rotateUpFrom address count).rotateDownTo address count).registers.a =
        machine.registers.a := by
  have hthere := machine.rotateUpFrom_stores address hfits
  have hback := (machine.rotateUpFrom address count).rotateDownTo_stores address hfits
  have hlength := machine.registers.length_rotateUp (machine.memory.slice address count)
  have hundo := machine.registers.rotateDown_rotateUp (machine.memory.slice address count)
  have hbytes := hthere.bytes
  rw [Memory.length_slice] at hlength
  rw [hlength] at hbytes
  rw [hbytes, hthere.registers, rotateDown_withHL] at hback
  exact ⟨hthere.restores hback hlength hundo.1,
    (congrArg (·.a) hback.registers).trans hundo.2⟩

theorem rotateUpFrom_rotateDownTo (hfits : count ≤ 2 ^ 16) :
    ((machine.rotateDownTo address count).rotateUpFrom address count).memory = machine.memory ∧
      ((machine.rotateDownTo address count).rotateUpFrom address count).registers.a =
        machine.registers.a := by
  have hthere := machine.rotateDownTo_stores address hfits
  have hback := (machine.rotateDownTo address count).rotateUpFrom_stores address hfits
  have hlength := machine.registers.length_rotateDown (machine.memory.slice address count)
  have hundo := machine.registers.rotateUp_rotateDown (machine.memory.slice address count)
  have hbytes := hthere.bytes
  rw [Memory.length_slice] at hlength
  rw [hlength] at hbytes
  rw [hbytes, hthere.registers, rotateUp_withHL] at hback
  exact ⟨hthere.restores hback hlength hundo.1,
    (congrArg (·.a) hback.registers).trans hundo.2⟩

/-- From an address on, memory holds these bytes, each at an address of its own. -/
structure Holds (machine : Machine) (address : Word) (numeral : Numeral) : Prop where
  fits : numeral.length ≤ 2 ^ 16
  bytes : machine.memory.slice address numeral.length = numeral

/-- The instructions do to a number of bytes in memory what the rotations do to a numeral, and
restore memory and the accumulator as these restore the numeral. -/
structure RotatesInMemory (machine : Machine) (address : Word) (numeral : Numeral) : Prop where
  up : machine.Stores address (machine.registers.rotateUp numeral)
    (machine.rotateUpFrom address numeral.length)
  down : machine.Stores address (machine.registers.rotateDown numeral)
    (machine.rotateDownTo address numeral.length)
  undoUp :
    let after := (machine.rotateUpFrom address numeral.length).rotateDownTo address numeral.length
    after.memory = machine.memory ∧ after.registers.a = machine.registers.a
  undoDown :
    let after := (machine.rotateDownTo address numeral.length).rotateUpFrom address numeral.length
    after.memory = machine.memory ∧ after.registers.a = machine.registers.a

end Machine

/-- The rotations of a numeral's digits move the digits of its number, wherever the bytes are. -/
structure Numeral.RotatesAsNumber (numeral : Numeral) (registers : Registers) : Prop where
  up : numeral.MovedUp registers (registers.rotateUp numeral)
  down : numeral.MovedDown registers (registers.rotateDown numeral)
  undoUp :
    let (bytes, last) := registers.rotateUp numeral
    (last.rotateDown bytes).1 = numeral ∧ (last.rotateDown bytes).2.a = registers.a
  undoDown :
    let (bytes, last) := registers.rotateDown numeral
    (last.rotateUp bytes).1 = numeral ∧ (last.rotateUp bytes).2.a = registers.a
  inMemory : ∀ (machine : Machine) (address : Word), machine.Holds address numeral →
    machine.RotatesInMemory address numeral

/-- Rotating the digits of the bytes of a numeral, one byte after the other, moves the digits of its
number by one place through the accumulator. -/
theorem Registers.rotatesDigits (registers : Registers) {numeral : Numeral}
    (hnonempty : numeral ≠ []) : numeral.RotatesAsNumber registers where
  up := registers.movedUp_rotateUp hnonempty
  down := registers.movedDown_rotateDown hnonempty
  undoUp := registers.rotateDown_rotateUp numeral
  undoDown := registers.rotateUp_rotateDown numeral
  inMemory := by
    rintro machine address ⟨hfits, hbytes⟩
    have hup := machine.rotateUpFrom_stores address hfits
    have hdown := machine.rotateDownTo_stores address hfits
    rw [hbytes] at hup hdown
    exact ⟨hup, hdown, machine.rotateDownTo_rotateUpFrom address hfits,
      machine.rotateUpFrom_rotateDownTo address hfits⟩

/-- The digits 1234, and 9 in the accumulator, in registers and in memory around its end. -/
theorem Registers.rotatesDigits_of_four :
    let registers : Registers := { a := 0x59 }
    let digits : Numeral := [0x34, 0x12]
    let machine : Machine :=
      { registers := registers, memory := Memory.blank.load 0xFFFF [0x34, 0x12] }
    digits ≠ [] ∧ digits.RotatesAsNumber registers ∧
      machine.Holds 0xFFFF digits ∧
      (registers.rotateUp digits).1 = [0x49, 0x23] ∧ (registers.rotateUp digits).2.a = 0x51 ∧
      (machine.rotateDownTo 0xFFFF 2).memory.slice 0xFFFF 2 = [0x23, 0x91] ∧
      (machine.rotateDownTo 0xFFFF 2).registers.a = 0x54 := by
  intro registers digits machine
  have hdigits : digits ≠ [] := by decide
  exact ⟨hdigits, registers.rotatesDigits hdigits, ⟨by decide, by decide +kernel⟩,
    by decide, by decide, by decide +kernel, by decide +kernel⟩

end Z80
