import Z80.Word

/-!
# Memory

The address space holds 65536 bytes, as 256 pages of 256 bytes: the high byte of an address is its
page and the low byte its place there. `read_write_same` and `read_write_other` describe a store,
`slice_load` bytes that were loaded, and `ext_read` says that a memory is what it reads as.
-/

namespace Z80

/-- The contents of the address space. -/
structure Memory where
  pages : Vector (Vector Byte 256) 256
deriving DecidableEq

namespace Memory

/-- The memory with a given byte at each address. -/
def ofFn (contents : Word → Byte) : Memory where
  pages := .ofFn fun page => .ofFn fun place => contents (joinBytes (.ofFin page) (.ofFin place))

/-- The memory that holds zero everywhere. -/
def blank : Memory where
  pages := .replicate 256 (.replicate 256 0)

instance : Inhabited Memory := ⟨blank⟩

/-- The byte at an address. -/
def read (memory : Memory) (address : Word) : Byte :=
  (memory.pages[(highByte address).toFin])[(lowByte address).toFin]

/-- Replaces the byte at an address. -/
def write (memory : Memory) (address : Word) (value : Byte) : Memory where
  pages := memory.pages.set (highByte address).toFin
    (memory.pages[(highByte address).toFin].set (lowByte address).toFin value)

/-- The word whose low byte is at an address and whose high byte follows. -/
def readWord (memory : Memory) (address : Word) : Word :=
  joinBytes (memory.read (address + 1)) (memory.read address)

/-- Stores consecutive bytes, going on at address 0 after the last. -/
def load (memory : Memory) (address : Word) : List Byte → Memory
  | [] => memory
  | value :: values => (memory.write address value).load (address + 1) values

/-- The bytes at consecutive addresses, going on at address 0 after the last. -/
def slice (memory : Memory) (address : Word) : Nat → List Byte
  | 0 => []
  | count + 1 => memory.read address :: memory.slice (address + 1) count

@[simp] theorem length_slice (memory : Memory) (address : Word) (count : Nat) :
    (memory.slice address count).length = count := by
  induction count generalizing address with
  | zero => rfl
  | succ count ih => exact congrArg (· + 1) (ih _)

/-! ## Reading after writing -/

@[simp] theorem read_blank (address : Word) : blank.read address = 0 := by
  simp [blank, read]

@[simp] theorem read_ofFn (contents : Word → Byte) (address : Word) :
    (ofFn contents).read address = contents address := by
  simp [ofFn, read]

@[simp] theorem read_write_same (memory : Memory) (address : Word) (value : Byte) :
    (memory.write address value).read address = value := by
  simp [read, write]

theorem read_write_other (memory : Memory) {written address : Word} (value : Byte)
    (h : written ≠ address) :
    (memory.write written value).read address = memory.read address := by
  simp only [read, write, Fin.getElem_fin, Vector.getElem_set]
  by_cases hpage : highByte written = highByte address
  · have hplace : lowByte written ≠ lowByte address := fun hlow =>
      h (by rw [← joinBytes_highByte_lowByte written, hpage, hlow, joinBytes_highByte_lowByte])
    have hindex : (lowByte written).toNat ≠ (lowByte address).toNat :=
      fun heq => hplace (BitVec.eq_of_toNat_eq heq)
    simp [hpage, hindex]
  · have hindex : (highByte written).toNat ≠ (highByte address).toNat :=
      fun heq => hpage (BitVec.eq_of_toNat_eq heq)
    simp [hindex]

theorem read_write (memory : Memory) (written address : Word) (value : Byte) :
    (memory.write written value).read address =
      if written = address then value else memory.read address := by
  by_cases h : written = address
  · subst h
    simp
  · rw [read_write_other memory value h, if_neg h]

/-- Two memories that read alike everywhere are the same. -/
theorem ext_read {left right : Memory} (h : ∀ address, left.read address = right.read address) :
    left = right := by
  obtain ⟨leftPages⟩ := left
  obtain ⟨rightPages⟩ := right
  congr
  ext page hpage place hplace
  have hread := h (joinBytes (BitVec.ofNat 8 page) (BitVec.ofNat 8 place))
  simp only [read, highByte_joinBytes, lowByte_joinBytes, BitVec.toFin_ofNat, Fin.getElem_fin,
    Fin.val_ofNat, Nat.reducePow, Nat.mod_eq_of_lt hpage, Nat.mod_eq_of_lt hplace] at hread
  rw [hread]

/-! ## Stretches of memory -/

theorem slice_add (memory : Memory) (address : Word) (first second : Nat) :
    memory.slice address (first + second) =
      memory.slice address first ++ memory.slice (address + BitVec.ofNat 16 first) second := by
  induction first generalizing address with
  | zero => simp [slice]
  | succ first ih =>
      have hbehind :
          address + 1 + BitVec.ofNat 16 first = address + BitVec.ofNat 16 (first + 1) := by
        rw [BitVec.add_assoc, BitVec.ofNat_add, BitVec.add_comm (BitVec.ofNat 16 first)]
        rfl
      rw [Nat.succ_add, slice, slice, ih, hbehind, List.cons_append]

/-- An address that lies further on is another one. -/
theorem ne_of_lt_distance {address other : Word} {count : Nat}
    (hdistance : count < (other - address).toNat) : address ≠ other := by
  rintro rfl
  simp at hdistance

/-- A write in front of a stretch of memory or behind it leaves its bytes alone. -/
theorem slice_write_other (memory : Memory) {written address : Word} {count : Nat} (value : Byte)
    (houtside : count ≤ (written - address).toNat) :
    (memory.write written value).slice address count = memory.slice address count := by
  induction count generalizing address with
  | zero => rfl
  | succ count ih =>
      have hother := (ne_of_lt_distance houtside).symm
      rw [slice, slice, read_write_other memory value hother, ih (by bv_omega)]

/-- Loading bytes leaves what is in front of them or behind them alone. -/
theorem read_load_other (memory : Memory) {address other : Word} {values : List Byte}
    (houtside : values.length ≤ (other - address).toNat) :
    (memory.load address values).read other = memory.read other := by
  induction values generalizing memory address with
  | nil => rfl
  | cons value values ih =>
      rw [List.length_cons] at houtside
      rw [load, ih _ (by bv_omega), read_write_other memory value (ne_of_lt_distance houtside)]

/-- Bytes that fit into the address space are where they were loaded. -/
theorem slice_load (memory : Memory) (address : Word) {values : List Byte}
    (hfits : values.length ≤ 65536) :
    (memory.load address values).slice address values.length = values := by
  induction values generalizing memory address with
  | nil => rfl
  | cons value values ih =>
      rw [List.length_cons] at hfits
      have hbehind : values.length ≤ (address - (address + 1)).toNat := by bv_omega
      rw [List.length_cons, slice, load, read_load_other _ hbehind, read_write_same,
        ih _ _ (Nat.le_of_succ_le hfits)]

/-- Memories are equal if they have the same bytes in a stretch and outside of it. -/
theorem ext_slice {first second : Memory} {address : Word} {count : Nat}
    (hslice : first.slice address count = second.slice address count)
    (helsewhere : ∀ other : Word, count ≤ (other - address).toNat →
      first.read other = second.read other) : first = second := by
  induction count generalizing address with
  | zero => exact ext_read fun other => helsewhere other (Nat.zero_le _)
  | succ count ih =>
      obtain ⟨hread, hrest⟩ := List.cons.inj hslice
      refine ih hrest fun other hother => ?_
      by_cases hsame : other = address
      · rw [hsame, hread]
      · exact helsewhere other (by bv_omega)

end Memory

end Z80
