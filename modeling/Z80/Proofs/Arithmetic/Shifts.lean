import Z80.Proofs.Arithmetic.Numerals

/-!
# Shifting numerals

Shifting the bytes of a numeral one after the other, with the carry in between, shifts the whole
number by one place: to the left from the lowest byte up, to the right from the highest byte down
(`shiftsNumerals`). The rotations with the carry undo each other. The other shifts are such
rotations too, but for the bit that enters at the first byte.
-/

namespace Z80

/-! ## One byte -/

theorem eq_of_two_mul_add {first second : Nat} {bit other : Bool}
    (h : 2 * first + bit.toNat = 2 * second + other.toNat) : first = second ∧ bit = other := by
  cases bit <;> cases other <;> simp at h ⊢ <;> omega

namespace Shift

variable (value : Byte) (entering : Bool)

theorem toNat_unitByte : (unitByte entering).toNat = entering.toNat := by
  cases entering <;> rfl

/-- On the way to the left, the bit that leaves is worth a byte. -/
theorem toNat_left :
    (left value entering).1.toNat + 256 * (left value entering).2.toNat =
      2 * value.toNat + entering.toNat := by
  have hmoved : (value <<< 1).toNat = (value.toNat % 128) <<< 1 := by
    rw [BitVec.toNat_shiftLeft, Nat.shiftLeft_eq, Nat.shiftLeft_eq]
    omega
  have hresult : (left value entering).1.toNat = 2 * (value.toNat % 128) + entering.toNat := by
    show ((value <<< 1) ||| unitByte entering).toNat = _
    rw [BitVec.toNat_or, hmoved, toNat_unitByte,
      ← Nat.shiftLeft_add_eq_or_of_lt (Bool.toNat_lt entering), Nat.shiftLeft_eq]
    omega
  have hout : (left value entering).2.toNat = value.toNat / 128 := by
    show (value.toNat.testBit 7).toNat = _
    have hvalue := value.isLt
    rw [Nat.toNat_testBit]
    omega
  rw [hresult, hout]
  omega

/-- On the way to the right, it is the bit that enters. -/
theorem toNat_right :
    2 * (right value entering).1.toNat + (right value entering).2.toNat =
      value.toNat + 256 * entering.toNat := by
  have hhalf : value.toNat >>> 1 < 2 ^ 7 := by
    have hvalue := value.isLt
    rw [Nat.shiftRight_eq_div_pow]
    omega
  have hentered : (unitByte entering <<< 7).toNat = entering.toNat <<< 7 := by
    cases entering <;> rfl
  have hresult : (right value entering).1.toNat = entering.toNat <<< 7 + value.toNat >>> 1 := by
    show ((value >>> 1) ||| (unitByte entering <<< 7)).toNat = _
    rw [BitVec.toNat_or, BitVec.toNat_ushiftRight, hentered, Nat.or_comm,
      ← Nat.shiftLeft_add_eq_or_of_lt hhalf]
  have hout : (right value entering).2.toNat = value.toNat % 2 := by
    show (value.toNat.testBit 0).toNat = _
    rw [Nat.toNat_testBit]
    omega
  rw [hresult, hout, Nat.shiftLeft_eq, Nat.shiftRight_eq_div_pow]
  omega

end Shift

namespace Registers

/-! ## All bytes -/

/-- Shifts one byte. -/
def shiftByte (op : Shift) (registers : Registers) (value : Byte) : Byte × Registers :=
  registers.edit (.shift op) value

/-- Shifts a numeral to the left: the lowest byte as given, and the others with the carry that the
byte before has left. -/
def shiftUp (registers : Registers) (first : Shift) : Numeral → Numeral × Registers
  | [] => ([], registers)
  | low :: rest =>
      let (byte, next) := registers.shiftByte first low
      let (bytes, last) := next.ascend (shiftByte .rotateLeft) rest
      (byte :: bytes, last)

/-- Shifts a numeral to the right: the highest byte as given, and the others with the carry that the
byte before has left. -/
def shiftDown (registers : Registers) (first : Shift) (numeral : Numeral) : Numeral × Registers :=
  match numeral.getLast? with
  | none => ([], registers)
  | some top =>
      let (byte, next) := registers.shiftByte first top
      let (bytes, last) := next.descend (shiftByte .rotateRight) numeral.dropLast
      (bytes ++ [byte], last)

/-- The registers with another carry. -/
def withCarry (registers : Registers) (carry : Bool) : Registers :=
  { registers with flags := { registers.flags with carry } }

variable (registers : Registers) {first : Shift} {entering : Bool}

/-- A shift depends on the bit that enters only, and replaces all of the flags. -/
theorem shiftByte_eq (other : Shift) {value : Byte}
    (hsame : first.apply value registers.flags.carry = other.apply value entering) :
    registers.shiftByte first value = (registers.withCarry entering).shiftByte other value := by
  -- spelled out, as only the two results of `apply` stand in it and the old flags do not
  have hbyte : ∀ (registers : Registers) (op : Shift),
      registers.shiftByte op value =
        ((op.apply value registers.flags.carry).1,
          { registers with flags :=
            { Flags.ofLogic (op.apply value registers.flags.carry).1 with
              carry := (op.apply value registers.flags.carry).2 } }) := fun _ _ => rfl
  rw [hbyte, hbyte, hsame]
  rfl

theorem shiftUp_eq_ascend {numeral : Numeral} (hnonempty : numeral ≠ [])
    (hfirst : ∀ low, first.apply low registers.flags.carry = Shift.left low entering) :
    registers.shiftUp first numeral =
      (registers.withCarry entering).ascend (shiftByte .rotateLeft) numeral := by
  obtain ⟨low, rest, rfl⟩ := List.exists_cons_of_ne_nil hnonempty
  rw [shiftUp, registers.shiftByte_eq .rotateLeft (hfirst low)]
  rfl

theorem shiftDown_eq_descend {numeral : Numeral} (hnonempty : numeral ≠ [])
    (hfirst : ∀ rest top, numeral = rest ++ [top] →
      first.apply top registers.flags.carry = Shift.right top entering) :
    registers.shiftDown first numeral =
      (registers.withCarry entering).descend (shiftByte .rotateRight) numeral := by
  obtain ⟨rest, top, rfl⟩ := (List.eq_nil_or_concat' numeral).resolve_left hnonempty
  unfold shiftDown
  rw [List.getLast?_concat, List.dropLast_concat]
  dsimp only
  rw [registers.shiftByte_eq .rotateRight (hfirst rest top rfl), descend_concat]

theorem ascend_rotateLeft_exact (numeral : Numeral) :
    (registers.ascend (shiftByte .rotateLeft) numeral).1.value +
        256 ^ numeral.length *
          (registers.ascend (shiftByte .rotateLeft) numeral).2.flags.carry.toNat =
      2 * numeral.value + registers.flags.carry.toNat := by
  have hstep : ∀ registers, ∀ byte ∈ numeral,
      ((shiftByte .rotateLeft registers byte).1.toNat : Int) +
          256 * (shiftByte .rotateLeft registers byte).2.flags.carry.toNat =
        2 * byte.toNat + registers.flags.carry.toNat := by
    intro registers byte _
    exact_mod_cast Shift.toNat_left byte registers.flags.carry
  have hexact := ascend_exact (fun byte : Byte => byte.toNat) (fun byte : Byte => 2 * byte.toNat)
    (fun registers : Registers => registers.flags.carry.toNat) hstep registers
  rw [spelled_mul] at hexact
  zify
  rw [Numeral.cast_value, Numeral.cast_value]
  exact hexact

theorem descend_rotateRight_exact (numeral : Numeral) :
    2 * (registers.descend (shiftByte .rotateRight) numeral).1.value +
        (registers.descend (shiftByte .rotateRight) numeral).2.flags.carry.toNat =
      numeral.value + 256 ^ numeral.length * registers.flags.carry.toNat := by
  have hstep : ∀ registers, ∀ byte ∈ numeral,
      2 * ((shiftByte .rotateRight registers byte).1.toNat : Int) +
          (shiftByte .rotateRight registers byte).2.flags.carry.toNat =
        byte.toNat + 256 * registers.flags.carry.toNat := by
    intro registers byte _
    exact_mod_cast Shift.toNat_right byte registers.flags.carry
  have hexact := descend_exact (fun byte : Byte => 2 * byte.toNat) (fun byte : Byte => byte.toNat)
    (fun registers : Registers => registers.flags.carry.toNat) hstep registers
  rw [spelled_mul] at hexact
  zify
  rw [Numeral.cast_value, Numeral.cast_value]
  exact hexact

end Registers

/-! ## One place -/

namespace Numeral

variable {numeral : Numeral} {entering : Bool}

theorem even_pow_length (hnonempty : numeral ≠ []) : 256 ^ numeral.length % 2 = 0 := by
  obtain ⟨low, rest, rfl⟩ := List.exists_cons_of_ne_nil hnonempty
  rw [List.length_cons, pow_succ]
  omega

/-- What shifting a numeral to the left by one place leaves, where a bit enters at the bottom. -/
structure ShiftedLeft (numeral : Numeral) (entering : Bool) (after : Numeral × Registers) :
    Prop where
  length : after.1.length = numeral.length
  value : after.1.value = (2 * numeral.value + entering.toNat) % 256 ^ numeral.length
  carry : after.2.flags.carry = numeral.topBit

/-- What shifting it to the right leaves, where a bit enters at the top. -/
structure ShiftedRight (numeral : Numeral) (entering : Bool) (after : Numeral × Registers) :
    Prop where
  length : after.1.length = numeral.length
  value : after.1.value = (numeral.value + 256 ^ numeral.length * entering.toNat) / 2
  carry : after.2.flags.carry = numeral.value.testBit 0

theorem ShiftedLeft.of_exact {after : Numeral × Registers} (hnonempty : numeral ≠ [])
    (hlength : after.1.length = numeral.length)
    (hexact : after.1.value + 256 ^ numeral.length * after.2.flags.carry.toNat =
      2 * numeral.value + entering.toNat) :
    numeral.ShiftedLeft entering after := by
  have hsmall := after.1.value_lt
  have heven := even_pow_length hnonempty
  have hone := Bool.toNat_le entering
  rw [hlength] at hsmall
  refine ⟨hlength, ?_, ?_⟩
  · rw [← hexact, Nat.add_mul_mod_self_left, Nat.mod_eq_of_lt hsmall]
  · rw [topBit_eq_decide hnonempty]
    cases hcarry : after.2.flags.carry with
    | false =>
        rw [hcarry, Bool.toNat_false] at hexact
        exact (decide_eq_false (by omega)).symm
    | true =>
        rw [hcarry, Bool.toNat_true] at hexact
        exact (decide_eq_true (by omega)).symm

theorem ShiftedRight.of_exact {after : Numeral × Registers} (hnonempty : numeral ≠ [])
    (hlength : after.1.length = numeral.length)
    (hexact : 2 * after.1.value + after.2.flags.carry.toNat =
      numeral.value + 256 ^ numeral.length * entering.toNat) :
    numeral.ShiftedRight entering after := by
  have hentered : 256 ^ numeral.length * entering.toNat % 2 = 0 := by
    rw [Nat.mul_mod, even_pow_length hnonempty, Nat.zero_mul, Nat.zero_mod]
  have hone := Bool.toNat_le after.2.flags.carry
  refine ⟨hlength, by omega, ?_⟩
  rw [Nat.testBit_zero, Bool.eq_iff_iff, ← Bool.toNat_eq_one, decide_eq_true_iff]
  omega

/-- Where the top bit enters again, the number with its sign is halved. -/
theorem ShiftedRight.signed {after : Numeral × Registers} (hnonempty : numeral ≠ [])
    (hshifted : numeral.ShiftedRight numeral.topBit after) :
    after.1.signed = numeral.signed / 2 := by
  have hsmall := numeral.value_lt
  have hbefore := numeral.signed_cases
  have hafter := after.1.signed_cases
  have hvalue := hshifted.value
  rw [topBit_eq_decide hnonempty] at hvalue
  rw [hshifted.length] at hafter
  by_cases htop : 256 ^ numeral.length ≤ 2 * numeral.value
  · rw [decide_eq_true htop, Bool.toNat_true] at hvalue
    omega
  · rw [decide_eq_false htop, Bool.toNat_false] at hvalue
    omega

/-- Every shift of a numeral is that of its number. -/
structure ShiftsAsNumber (numeral : Numeral) (registers : Registers) : Prop where
  rotateLeft : numeral.ShiftedLeft registers.flags.carry (registers.shiftUp .rotateLeft numeral)
  shiftLeft : numeral.ShiftedLeft false (registers.shiftUp .shiftLeft numeral)
  shiftLeftOne : numeral.ShiftedLeft true (registers.shiftUp .shiftLeftOne numeral)
  rotateRight : numeral.ShiftedRight registers.flags.carry
    (registers.shiftDown .rotateRight numeral)
  shiftRight : numeral.ShiftedRight false (registers.shiftDown .shiftRight numeral)
  shiftRightSigned : numeral.ShiftedRight numeral.topBit
      (registers.shiftDown .shiftRightSigned numeral) ∧
    (registers.shiftDown .shiftRightSigned numeral).1.signed = numeral.signed / 2
  /-- A rotation to the right takes back one to the left. -/
  undoLeft :
    let (bytes, last) := registers.shiftUp .rotateLeft numeral
    (last.shiftDown .rotateRight bytes).1 = numeral ∧
      (last.shiftDown .rotateRight bytes).2.flags.carry = registers.flags.carry
  /-- A rotation to the left takes back one to the right. -/
  undoRight :
    let (bytes, last) := registers.shiftDown .rotateRight numeral
    (last.shiftUp .rotateLeft bytes).1 = numeral ∧
      (last.shiftUp .rotateLeft bytes).2.flags.carry = registers.flags.carry

end Numeral

namespace Registers

section

variable (registers : Registers) (first : Shift) {numeral : Numeral} {entering : Bool}
  (hnonempty : numeral ≠ [])

include hnonempty

theorem shiftUp_exact
    (hfirst : ∀ low, first.apply low registers.flags.carry = Shift.left low entering) :
    (registers.shiftUp first numeral).1.length = numeral.length ∧
      (registers.shiftUp first numeral).1.value +
          256 ^ numeral.length * (registers.shiftUp first numeral).2.flags.carry.toNat =
        2 * numeral.value + entering.toNat := by
  rw [shiftUp_eq_ascend registers hnonempty hfirst]
  exact ⟨length_ascend _, ascend_rotateLeft_exact _ numeral⟩

theorem shiftDown_exact
    (hfirst : ∀ rest top, numeral = rest ++ [top] →
      first.apply top registers.flags.carry = Shift.right top entering) :
    (registers.shiftDown first numeral).1.length = numeral.length ∧
      2 * (registers.shiftDown first numeral).1.value +
          (registers.shiftDown first numeral).2.flags.carry.toNat =
        numeral.value + 256 ^ numeral.length * entering.toNat := by
  rw [shiftDown_eq_descend registers hnonempty hfirst]
  exact ⟨length_descend _, descend_rotateRight_exact _ numeral⟩

theorem shiftedLeft_shiftUp
    (hfirst : ∀ low, first.apply low registers.flags.carry = Shift.left low entering) :
    numeral.ShiftedLeft entering (registers.shiftUp first numeral) := by
  obtain ⟨hlength, hexact⟩ := registers.shiftUp_exact first hnonempty hfirst
  exact .of_exact hnonempty hlength hexact

theorem shiftedRight_shiftDown
    (hfirst : ∀ rest top, numeral = rest ++ [top] →
      first.apply top registers.flags.carry = Shift.right top entering) :
    numeral.ShiftedRight entering (registers.shiftDown first numeral) := by
  obtain ⟨hlength, hexact⟩ := registers.shiftDown_exact first hnonempty hfirst
  exact .of_exact hnonempty hlength hexact

/-- The number doubled to the left is the number halved to the right. -/
theorem shiftDown_shiftUp :
    let (bytes, last) := registers.shiftUp .rotateLeft numeral
    (last.shiftDown .rotateRight bytes).1 = numeral ∧
      (last.shiftDown .rotateRight bytes).2.flags.carry = registers.flags.carry := by
  obtain ⟨hlength, hup⟩ := registers.shiftUp_exact .rotateLeft hnonempty fun _ => rfl
  have hthere := Numeral.ne_nil_of_length_eq hlength hnonempty
  obtain ⟨hback, hdown⟩ := shiftDown_exact (registers.shiftUp .rotateLeft numeral).2
    .rotateRight hthere fun _ _ _ => rfl
  -- the law of the way back, with that of the way there put in, is about the numeral alone
  rw [hlength, hup] at hdown
  obtain ⟨hvalue, hcarry⟩ := eq_of_two_mul_add hdown
  exact ⟨Numeral.eq_of_value_eq (hback.trans hlength) hvalue, hcarry⟩

theorem shiftUp_shiftDown :
    let (bytes, last) := registers.shiftDown .rotateRight numeral
    (last.shiftUp .rotateLeft bytes).1 = numeral ∧
      (last.shiftUp .rotateLeft bytes).2.flags.carry = registers.flags.carry := by
  obtain ⟨hlength, hdown⟩ :=
    registers.shiftDown_exact .rotateRight hnonempty fun _ _ _ => rfl
  have hthere := Numeral.ne_nil_of_length_eq hlength hnonempty
  obtain ⟨hback, hup⟩ := shiftUp_exact (registers.shiftDown .rotateRight numeral).2
    .rotateLeft hthere fun _ => rfl
  rw [hlength, hdown] at hup
  have hsmall :=
    (((registers.shiftDown .rotateRight numeral).2.shiftUp .rotateLeft
      (registers.shiftDown .rotateRight numeral).1).1).value_lt
  rw [hback, hlength] at hsmall
  obtain ⟨hvalue, hcarry⟩ := eq_of_add_mul_toNat hsmall numeral.value_lt hup
  exact ⟨Numeral.eq_of_value_eq (hback.trans hlength) hvalue, hcarry⟩

end

/-- Shifting the bytes of a numeral with the carry in between shifts its number. -/
theorem shiftsNumerals (registers : Registers) {numeral : Numeral} (hnonempty : numeral ≠ []) :
    numeral.ShiftsAsNumber registers where
  rotateLeft := shiftedLeft_shiftUp registers _ hnonempty fun _ => rfl
  shiftLeft := shiftedLeft_shiftUp registers _ hnonempty fun _ => rfl
  shiftLeftOne := shiftedLeft_shiftUp registers _ hnonempty fun _ => rfl
  rotateRight := shiftedRight_shiftDown registers _ hnonempty fun _ _ _ => rfl
  shiftRight := shiftedRight_shiftDown registers _ hnonempty fun _ _ _ => rfl
  shiftRightSigned := by
    have hshifted : numeral.ShiftedRight numeral.topBit
        (registers.shiftDown .shiftRightSigned numeral) := by
      refine shiftedRight_shiftDown registers _ hnonempty ?_
      rintro rest top rfl
      rw [Numeral.topBit_concat]
      rfl
    exact ⟨hshifted, hshifted.signed hnonempty⟩
  undoLeft := shiftDown_shiftUp registers hnonempty
  undoRight := shiftUp_shiftDown registers hnonempty

/-- The largest number loses its top bit to the left and its lowest one to the right. -/
theorem shiftsNumerals_of_ones :
    let registers : Registers := {}
    let ones : Numeral := [0xFF, 0xFF]
    ones ≠ [] ∧ ones.ShiftsAsNumber registers ∧
      (registers.shiftUp .shiftLeftOne ones).1 = [0xFF, 0xFF] ∧
      (registers.shiftDown .rotateRight ones).1 = [0xFF, 0x7F] ∧
      (registers.shiftDown .shiftRightSigned ones).1 = [0xFF, 0xFF] := by
  intro registers ones
  have hones : ones ≠ [] := by decide
  exact ⟨hones, registers.shiftsNumerals hones, by decide, by decide, by decide⟩

end Registers

end Z80
