import Z80.Proofs.Likeness.Names
import Z80.Machine.Block

/-!
# Registers that are alike

A `Likeness` says how two machines may differ and still do the same. Here the register files of two
such machines are compared: whatever an instruction computes from one file it also computes from the
other, since no flag besides the undocumented two may differ, and no operation looks at those.
-/

namespace Z80

/-! ## The undocumented flags -/

/-- The flags with the undocumented ones cleared. -/
def Flags.documented (flags : Flags) : Flags :=
  { flags with x := false, y := false }

section Documented

variable (flags : Flags)

theorem AluOp.apply_documented (op : AluOp) (a operand : Byte) :
    op.apply a operand flags.documented = op.apply a operand flags := by
  cases op <;> rfl

theorem AccumulatorOp.apply_documented (op : AccumulatorOp) (a : Byte) :
    op.apply a flags.documented = op.apply a flags := by
  cases op <;> rfl

theorem WordOp.apply_documented (op : WordOp) (left right : Word) :
    op.apply left right flags.documented = op.apply left right flags := by
  cases op <;> rfl

theorem Condition.holds_documented (condition : Condition) :
    condition.holds flags.documented = condition.holds flags := by
  cases condition
  rfl

end Documented

/-! ## The index registers -/

theorem Registers.setIndex_eq (registers : Registers) (index : Index) (value : Word) :
    registers.setIndex index value =
      { registers with
        ix := if index = .ix then value else registers.ix
        iy := if index = .iy then value else registers.iy } := by
  cases index <;> rfl

theorem Registers.index_setIndex (registers : Registers) (written read : Index) (value : Word) :
    (registers.setIndex written value).index read =
      if read = written then value else registers.index read := by
  cases written <;> cases read <;> rfl

/-! ## Likeness -/

/-- A way in which two machines may differ: the names of their index registers may be exchanged, and
their flags, their interrupt modes and their logs need only be alike. -/
structure Likeness where
  swapped : Bool
  flags : Flags → Flags → Prop
  modes : InterruptMode → InterruptMode → Prop
  logs : Array Event → Array Event → Prop
  flags_refl : ∀ value, flags value value
  /-- Only the undocumented flags may differ. -/
  flags_documented : ∀ {left right}, flags left right → right.documented = left.documented
  modes_refl : ∀ mode, modes mode mode
  /-- A mode in which requests are dropped is not like one in which they are served. -/
  modes_two : ∀ {left right}, modes left right → (left = .two ↔ right = .two)
  logs_push : ∀ {left right}, logs left right → ∀ event, logs (left.push event) (right.push event)
  logs_served : ∀ {left right first second}, logs left right → modes first second → ∀ pc,
    logs (left.push (.notice (.maskableServed pc first)))
      (right.push (.notice (.maskableServed pc second)))

namespace Likeness

/-- The likeness of machines that do not differ. -/
def same : Likeness where
  swapped := false
  flags := Eq
  modes := Eq
  logs := Eq
  flags_refl _ := rfl
  flags_documented halike := congrArg _ halike.symm
  modes_refl _ := rfl
  modes_two halike := halike ▸ Iff.rfl
  logs_push halike event := congrArg (·.push event) halike
  logs_served hlogs hmodes _ := by rw [hlogs, hmodes]

variable {likeness : Likeness}

/-- Flags are alike only if they are the same. -/
def Exact (likeness : Likeness) : Prop :=
  ∀ {left right}, likeness.flags left right → right = left

/-- Whatever does not look at the undocumented flags is the same of flags that are alike. -/
theorem flags_congr {α : Type} (read : Flags → α)
    (hread : ∀ flags, read flags.documented = read flags) {left right : Flags}
    (halike : likeness.flags left right) : read right = read left := by
  rw [← hread right, likeness.flags_documented halike, hread]

/-! ## Banks -/

/-- Two banks that are alike. -/
structure OfBanks (likeness : Likeness) (left right : Bank) : Prop where
  a : right.a = left.a
  flags : likeness.flags left.flags right.flags
  bc : right.bc = left.bc
  de : right.de = left.de
  hl : right.hl = left.hl

namespace OfBanks

variable {left right leftOther rightOther : Bank}

theorem refl (bank : Bank) : likeness.OfBanks bank bank :=
  ⟨rfl, likeness.flags_refl _, rfl, rfl, rfl⟩

theorem get (halike : likeness.OfBanks left right) {pair : Pair}
    (hexact : pair = .af → likeness.Exact) : right.get pair = left.get pair := by
  cases pair with
  | af => rw [Bank.get, Bank.get, halike.a, hexact rfl halike.flags]
  | bc => exact halike.bc
  | de => exact halike.de
  | hl => exact halike.hl

theorem set (halike : likeness.OfBanks left right) (pair : Pair) (value : Word) :
    likeness.OfBanks (left.set pair value) (right.set pair value) := by
  cases pair with
  | af => exact { halike with a := rfl, flags := likeness.flags_refl _ }
  | bc => exact { halike with bc := rfl }
  | de => exact { halike with de := rfl }
  | hl => exact { halike with hl := rfl }

/-- A pair may come from another bank as well. The flags need not be the same for that. -/
theorem set_get (halike : likeness.OfBanks left right)
    (hother : likeness.OfBanks leftOther rightOther) (pair : Pair) :
    likeness.OfBanks (left.set pair (leftOther.get pair))
      (right.set pair (rightOther.get pair)) := by
  cases pair with
  | af =>
      simp only [Bank.set, Bank.get, highByte_joinBytes, lowByte_joinBytes, Flags.ofByte_toByte]
      exact { halike with a := hother.a, flags := hother.flags }
  | bc => exact { halike with bc := hother.bc }
  | de => exact { halike with de := hother.de }
  | hl => exact { halike with hl := hother.hl }

/-- Where flags are alike only if they are the same, so are banks. -/
theorem eq_of_exact (halike : likeness.OfBanks left right) (hexact : likeness.Exact) :
    right = left := by
  obtain ⟨a, flags, bc, de, hl⟩ := right
  obtain rfl : a = left.a := halike.a
  obtain rfl : flags = left.flags := hexact halike.flags
  obtain rfl : bc = left.bc := halike.bc
  obtain rfl : de = left.de := halike.de
  obtain rfl : hl = left.hl := halike.hl
  rfl

end OfBanks

/-! ## Register files -/

/-- Two register files that are alike. -/
structure OfRegisters (likeness : Likeness) (left right : Registers) : Prop
    extends likeness.OfBanks left.toBank right.toBank where
  shadow : likeness.OfBanks left.shadow right.shadow
  index : ∀ index, right.index (index.across likeness.swapped) = left.index index
  sp : right.sp = left.sp
  pc : right.pc = left.pc
  i : right.i = left.i
  r : right.r = left.r

namespace OfRegisters

variable {left right : Registers}

theorem across (registers : Registers) :
    likeness.OfRegisters registers (registers.across likeness.swapped) where
  toOfBanks := .refl _
  shadow := .refl _
  index := registers.index_across
  sp := rfl
  pc := rfl
  i := rfl
  r := rfl

/-- Where flags are alike only if they are the same, nothing but names differs. -/
theorem eq_of_exact (halike : likeness.OfRegisters left right) (hexact : likeness.Exact) :
    right = left.across likeness.swapped := by
  have hindex (index : Index) : right.index index = left.index (index.across likeness.swapped) := by
    rw [← halike.index, Index.across_across]
  obtain ⟨bank, shadow, ix, iy, sp, pc, i, r⟩ := right
  obtain rfl : bank = left.toBank := halike.toOfBanks.eq_of_exact hexact
  obtain rfl : shadow = left.shadow := halike.shadow.eq_of_exact hexact
  obtain rfl : ix = left.index (Index.ix.across likeness.swapped) := hindex .ix
  obtain rfl : iy = left.index (Index.iy.across likeness.swapped) := hindex .iy
  obtain rfl : sp = left.sp := halike.sp
  obtain rfl : pc = left.pc := halike.pc
  obtain rfl : i = left.i := halike.i
  obtain rfl : r = left.r := halike.r
  rfl

/-! ### Access by name -/

theorem getByte (halike : likeness.OfRegisters left right) (register : ByteRegister) :
    right.getByte (register.across likeness.swapped) = left.getByte register := by
  cases register with
  | a => exact halike.a
  | b => exact congrArg highByte halike.bc
  | c => exact congrArg lowByte halike.bc
  | d => exact congrArg highByte halike.de
  | e => exact congrArg lowByte halike.de
  | h => exact congrArg highByte halike.hl
  | l => exact congrArg lowByte halike.hl
  | indexHigh index => exact congrArg highByte (halike.index index)
  | indexLow index => exact congrArg lowByte (halike.index index)

theorem setIndex (halike : likeness.OfRegisters left right) (written : Index) (value : Word) :
    likeness.OfRegisters (left.setIndex written value)
      (right.setIndex (written.across likeness.swapped) value) := by
  have hindex (other : Index) :
      (right.setIndex (written.across likeness.swapped) value).index
          (other.across likeness.swapped) = (left.setIndex written value).index other := by
    rw [Registers.index_setIndex, Registers.index_setIndex, halike.index]
    simp only [Index.across_inj]
  rw [Registers.setIndex_eq, Registers.setIndex_eq] at hindex ⊢
  exact { halike with index := hindex }

theorem setByte (halike : likeness.OfRegisters left right) (register : ByteRegister)
    (value : Byte) :
    likeness.OfRegisters (left.setByte register value)
      (right.setByte (register.across likeness.swapped) value) := by
  cases register with
  | a => exact { halike with a := rfl }
  | b => exact { halike with bc := congrArg (withHigh · value) halike.bc }
  | c => exact { halike with bc := congrArg (withLow · value) halike.bc }
  | d => exact { halike with de := congrArg (withHigh · value) halike.de }
  | e => exact { halike with de := congrArg (withLow · value) halike.de }
  | h => exact { halike with hl := congrArg (withHigh · value) halike.hl }
  | l => exact { halike with hl := congrArg (withLow · value) halike.hl }
  | indexHigh index | indexLow index =>
      simp only [Registers.setByte, ByteRegister.across, halike.index]
      exact halike.setIndex index _

theorem getWord (halike : likeness.OfRegisters left right) {register : WordRegister}
    (hexact : register = .pair .af → likeness.Exact) :
    right.getWord (register.across likeness.swapped) = left.getWord register := by
  cases register with
  | pair pair => exact halike.get fun haf => hexact (congrArg _ haf)
  | index index => exact halike.index index
  | sp => exact halike.sp

theorem setWord (halike : likeness.OfRegisters left right) (register : WordRegister)
    (value : Word) :
    likeness.OfRegisters (left.setWord register value)
      (right.setWord (register.across likeness.swapped) value) := by
  cases register with
  | pair pair => exact { halike with toOfBanks := halike.set pair value }
  | index index => exact halike.setIndex index value
  | sp => exact { halike with sp := rfl }

/-! ### Arithmetic -/

theorem arithmetic (halike : likeness.OfRegisters left right) (op : AluOp) (operand : Byte) :
    likeness.OfRegisters (left.arithmetic op operand) (right.arithmetic op operand) := by
  have happly := likeness.flags_congr _ (op.apply_documented · left.a operand) halike.flags
  unfold Registers.arithmetic
  rw [halike.a, happly]
  exact { halike with a := rfl, flags := likeness.flags_refl _ }

theorem accumulate (halike : likeness.OfRegisters left right) (op : AccumulatorOp) :
    likeness.OfRegisters (left.accumulate op) (right.accumulate op) := by
  have happly := likeness.flags_congr _ (op.apply_documented · left.a) halike.flags
  unfold Registers.accumulate
  rw [halike.a, happly]
  exact { halike with a := rfl, flags := likeness.flags_refl _ }

/-- The changed byte is the same, and so are the flags, unless they stay as they were. -/
theorem edit (halike : likeness.OfRegisters left right) (edit : Edit) (value : Byte) :
    (right.edit edit value).1 = (left.edit edit value).1 ∧
      likeness.OfRegisters (left.edit edit value).2 (right.edit edit value).2 := by
  have hcarry : right.flags.carry = left.flags.carry :=
    likeness.flags_congr Flags.carry (fun _ => rfl) halike.flags
  cases edit with
  | shift | increment | decrement =>
      simp only [Registers.edit, Edit.apply, hcarry, true_and]
      exact { halike with flags := likeness.flags_refl _ }
  | set | clear => exact ⟨rfl, { halike with flags := halike.flags }⟩

theorem testBit (halike : likeness.OfRegisters left right) (position : BitPosition)
    (value source : Byte) :
    likeness.OfRegisters (left.testBit position value source)
      (right.testBit position value source) := by
  have hflags :=
    likeness.flags_congr (testFlags position value source) (fun _ => rfl) halike.flags
  unfold Registers.testBit
  rw [hflags]
  exact { halike with flags := likeness.flags_refl _ }

theorem rotateDigit (halike : likeness.OfRegisters left right) (rotation : DigitRotation)
    (value : Byte) :
    (right.rotateDigit rotation value).1 = (left.rotateDigit rotation value).1 ∧
      likeness.OfRegisters (left.rotateDigit rotation value).2
        (right.rotateDigit rotation value).2 := by
  have hcarry : right.flags.carry = left.flags.carry :=
    likeness.flags_congr Flags.carry (fun _ => rfl) halike.flags
  simp only [Registers.rotateDigit, halike.a, hcarry, true_and]
  exact { halike with a := rfl, flags := likeness.flags_refl _ }

theorem arithmeticWord (halike : likeness.OfRegisters left right) (op : WordOp)
    (first second : Word) :
    (right.arithmeticWord op first second).1 = (left.arithmeticWord op first second).1 ∧
      likeness.OfRegisters (left.arithmeticWord op first second).2
        (right.arithmeticWord op first second).2 := by
  have happly := likeness.flags_congr _ (op.apply_documented · first second) halike.flags
  simp only [Registers.arithmeticWord, happly, true_and]
  exact { halike with flags := likeness.flags_refl _ }

/-! ### Exchanges with the shadow -/

theorem exchange (halike : likeness.OfRegisters left right) (pair : Pair) :
    likeness.OfRegisters (left.exchange pair) (right.exchange pair) :=
  { halike with
    toOfBanks := halike.set_get halike.shadow pair
    shadow := halike.shadow.set_get halike.toOfBanks pair }

theorem exchangeBank (halike : likeness.OfRegisters left right) :
    likeness.OfRegisters left.exchangeBank right.exchangeBank :=
  ((halike.exchange .bc).exchange .de).exchange .hl

/-! ### Counting -/

theorem refresh (halike : likeness.OfRegisters left right) (count : Byte) :
    likeness.OfRegisters (left.refresh count) (right.refresh count) := by
  unfold Registers.refresh
  rw [halike.r]
  exact { halike with r := rfl }

theorem jump (halike : likeness.OfRegisters left right) (address : Word) :
    likeness.OfRegisters { left with pc := address } { right with pc := address } :=
  { halike with pc := rfl }

theorem stepSource (halike : likeness.OfRegisters left right) (direction : Direction) :
    likeness.OfRegisters (left.stepSource direction) (right.stepSource direction) :=
  { halike with hl := congrArg direction.step halike.hl }

theorem stepTarget (halike : likeness.OfRegisters left right) (direction : Direction) :
    likeness.OfRegisters (left.stepTarget direction) (right.stepTarget direction) :=
  { halike with de := congrArg direction.step halike.de }

theorem countWord (halike : likeness.OfRegisters left right) :
    likeness.OfRegisters left.countWord right.countWord :=
  { halike with bc := congrArg (· - 1) halike.bc }

theorem countByte (halike : likeness.OfRegisters left right) :
    likeness.OfRegisters left.countByte right.countByte := by
  have hcounter : right.getByte .b = left.getByte .b := halike.getByte .b
  unfold Registers.countByte
  rw [hcounter]
  exact halike.setByte .b _

end OfRegisters

end Likeness

end Z80
