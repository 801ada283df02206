import Z80.Flags

/-!
# Registers

The main bank `AF`, `BC`, `DE`, `HL` has a shadow that the exchange instructions swap in. The
index registers, the stack pointer, the program counter, the interrupt page `I` and the refresh
counter `R` have none. Registers are named by `ByteRegister` and `WordRegister`.
-/

namespace Z80

/-- One of the two index registers. -/
inductive Index where
  | ix
  | iy
deriving DecidableEq, Inhabited

/-- A register pair of the main bank. -/
inductive Pair where
  | af
  | bc
  | de
  | hl
deriving DecidableEq, Inhabited

/-- An eight-bit register. The halves of the index registers count as registers. -/
inductive ByteRegister where
  | a
  | b
  | c
  | d
  | e
  | h
  | l
  | indexHigh (index : Index)
  | indexLow (index : Index)
deriving DecidableEq, Inhabited

/-- A sixteen-bit register that an instruction can name. -/
inductive WordRegister where
  | pair (pair : Pair)
  | index (index : Index)
  | sp
deriving DecidableEq, Inhabited

/-- A bank of register pairs. `AF` is kept as the accumulator and the flags. -/
structure Bank where
  a : Byte := 0
  flags : Flags := {}
  bc : Word := 0
  de : Word := 0
  hl : Word := 0
deriving DecidableEq, Inhabited

namespace Bank

/-- The word that a pair holds. -/
def get (bank : Bank) : Pair → Word
  | .af => joinBytes bank.a bank.flags.toByte
  | .bc => bank.bc
  | .de => bank.de
  | .hl => bank.hl

/-- Puts a word into a pair. -/
def set (bank : Bank) (pair : Pair) (value : Word) : Bank :=
  match pair with
  | .af => { bank with a := highByte value, flags := .ofByte (lowByte value) }
  | .bc => { bank with bc := value }
  | .de => { bank with de := value }
  | .hl => { bank with hl := value }

@[simp] theorem get_set_same (bank : Bank) (pair : Pair) (value : Word) :
    (bank.set pair value).get pair = value := by
  cases pair <;> simp [get, set]

theorem get_set_other (bank : Bank) {written read : Pair} (value : Word) (h : written ≠ read) :
    (bank.set written value).get read = bank.get read := by
  cases written <;> cases read <;> simp_all [get, set]

end Bank

/-- The register file: the main bank, its shadow and the unpaired registers. -/
structure Registers extends Bank where
  shadow : Bank := {}
  ix : Word := 0
  iy : Word := 0
  sp : Word := 0
  pc : Word := 0
  i : Byte := 0
  r : Byte := 0
deriving DecidableEq, Inhabited

namespace Registers

/-- The word in an index register. -/
def index (registers : Registers) : Index → Word
  | .ix => registers.ix
  | .iy => registers.iy

/-- Puts a word into an index register. -/
def setIndex (registers : Registers) (index : Index) (value : Word) : Registers :=
  match index with
  | .ix => { registers with ix := value }
  | .iy => { registers with iy := value }

/-- The byte in an eight-bit register. -/
def getByte (registers : Registers) : ByteRegister → Byte
  | .a => registers.a
  | .b => highByte registers.bc
  | .c => lowByte registers.bc
  | .d => highByte registers.de
  | .e => lowByte registers.de
  | .h => highByte registers.hl
  | .l => lowByte registers.hl
  | .indexHigh index => highByte (registers.index index)
  | .indexLow index => lowByte (registers.index index)

/-- Puts a byte into an eight-bit register. -/
def setByte (registers : Registers) (register : ByteRegister) (value : Byte) : Registers :=
  match register with
  | .a => { registers with a := value }
  | .b => { registers with bc := withHigh registers.bc value }
  | .c => { registers with bc := withLow registers.bc value }
  | .d => { registers with de := withHigh registers.de value }
  | .e => { registers with de := withLow registers.de value }
  | .h => { registers with hl := withHigh registers.hl value }
  | .l => { registers with hl := withLow registers.hl value }
  | .indexHigh index => registers.setIndex index (withHigh (registers.index index) value)
  | .indexLow index => registers.setIndex index (withLow (registers.index index) value)

/-- The word in a sixteen-bit register. -/
def getWord (registers : Registers) : WordRegister → Word
  | .pair pair => registers.toBank.get pair
  | .index index => registers.index index
  | .sp => registers.sp

/-- Puts a word into a sixteen-bit register. -/
def setWord (registers : Registers) (register : WordRegister) (value : Word) : Registers :=
  match register with
  | .pair pair => { registers with toBank := registers.toBank.set pair value }
  | .index index => registers.setIndex index value
  | .sp => { registers with sp := value }

@[simp] theorem getByte_setByte_same (registers : Registers) (register : ByteRegister)
    (value : Byte) : (registers.setByte register value).getByte register = value := by
  rcases register with _ | _ | _ | _ | _ | _ | _ | ⟨_ | _⟩ | ⟨_ | _⟩ <;>
    simp [getByte, setByte, setIndex, index, withHigh, withLow]

@[simp] theorem getWord_setWord_same (registers : Registers) (register : WordRegister)
    (value : Word) : (registers.setWord register value).getWord register = value := by
  rcases register with ⟨_⟩ | ⟨_ | _⟩ | _ <;> simp [getWord, setWord, setIndex, index]

/-- Adds one to a sixteen-bit register, touching no flag. -/
def incrementWord (registers : Registers) (register : WordRegister) : Registers :=
  registers.setWord register (registers.getWord register + 1)

/-- Takes one from a sixteen-bit register, touching no flag. -/
def decrementWord (registers : Registers) (register : WordRegister) : Registers :=
  registers.setWord register (registers.getWord register - 1)

/-- Swaps a pair with its shadow. -/
def exchange (registers : Registers) (pair : Pair) : Registers :=
  { registers with
    toBank := registers.toBank.set pair (registers.shadow.get pair)
    shadow := registers.shadow.set pair (registers.toBank.get pair) }

/-- Swaps `BC`, `DE` and `HL` with their shadows. -/
def exchangeBank (registers : Registers) : Registers :=
  ((registers.exchange .bc).exchange .de).exchange .hl

/-- Counts memory refreshes in the low seven bits of `R`; bit 7 stays. -/
def refresh (registers : Registers) (count : Byte) : Registers :=
  { registers with r := (registers.r &&& 0x80) ||| ((registers.r + count) &&& 0x7F) }

end Registers

end Z80
