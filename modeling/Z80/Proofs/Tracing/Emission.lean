import Z80.Proofs.Tracing.Step

/-!
# The traces that can be recorded

A trace that a step records tells of an entry of the instruction set: it shows the bytes of a code
that selects the entry, and operand bytes behind them. The other way round, a machine records every
such trace if memory holds those bytes at the program counter (`Trace.possible_iff`).
-/

namespace Z80

/-! ## The code that bytes spell -/

namespace Memory

variable {memory : Memory} {address : Word}

/-- What stands at an address is as good as a code: it selects an entry, it is spelled by the same
bytes, and traces show the same of it. -/
structure Spells (memory : Memory) (address : Word) (code : Code) (entry : Entry) : Prop where
  entry : memory.entryAt? address = some entry
  bytes : (memory.code address).bytes = code.bytes
  shown : (memory.code address).shownBytes = code.shownBytes

/-- A displacement that does not come before the opcode does not matter. -/
theorem Spells.of_plain {page : Page} {opcode displacement : Byte} {entry : Entry}
    (hcode : memory.code address = { page, opcode }) (hplain : page.displacementFirst = false)
    (hentry : Code.entry? { page, opcode, displacement } = some entry) :
    memory.Spells address { page, opcode, displacement } entry := by
  have hselected : memory.entryAt? address = Code.entry? { page, opcode } := by
    rw [entryAt?, hcode]
  have hbytes : (memory.code address).bytes = Code.bytes { page, opcode } := by rw [hcode]
  have hshown : (memory.code address).shownBytes = Code.shownBytes { page, opcode } := by rw [hcode]
  cases page with
  | indexedBits => exact absurd hplain.symm Bool.false_ne_true
  | _ => exact ⟨hselected.trans hentry, hbytes, hshown⟩

/-- The bytes that lead to another page have no entry of their own. -/
theorem unprefixedEntry_lead :
    ∀ opcode ∈ [0xCB, 0xED, Index.leadByte .ix, Index.leadByte .iy],
      Page.unprefixedEntry? opcode = none := by
  decide

theorem indexedEntry_lead (index : Index) : Page.indexedEntry? index 0xCB = none := by
  cases index <;> rfl

theorem code_of_lead {index : Index} (hlead : memory.read address = index.leadByte) :
    memory.code address = memory.indexedCode address index := by
  unfold code
  rw [hlead]
  cases index <;> rfl

/-- The bytes of a code spell it, if it selects an entry. -/
theorem spells_of_slice {code : Code} {entry : Entry} (hentry : code.entry? = some entry)
    (hslice : memory.slice address code.bytes.length = code.bytes) :
    memory.Spells address code entry := by
  obtain ⟨page, opcode, displacement⟩ := code
  cases page with
  | unprefixed =>
      obtain rfl : memory.read address = opcode := (List.cons.inj hslice).1
      have hplain := mt (unprefixedEntry_lead (memory.read address))
        (Option.ne_none_iff_exists'.2 ⟨entry, hentry⟩)
      simp only [List.mem_cons, List.not_mem_nil, or_false, not_or] at hplain
      obtain ⟨hbits, hextended, hix, hiy⟩ := hplain
      refine .of_plain ?_ rfl hentry
      rw [code, if_neg hbits, if_neg hextended, if_neg hix, if_neg hiy]
  | bits =>
      obtain ⟨hlead, htail⟩ := List.cons.inj hslice
      obtain rfl : memory.read (address + 1) = opcode := (List.cons.inj htail).1
      exact .of_plain (if_pos hlead) rfl hentry
  | extended =>
      obtain ⟨hlead, htail⟩ := List.cons.inj hslice
      obtain rfl : memory.read (address + 1) = opcode := (List.cons.inj htail).1
      refine .of_plain ?_ rfl hentry
      rw [code, hlead]
      rfl
  | indexed index =>
      obtain ⟨hlead, htail⟩ := List.cons.inj hslice
      obtain rfl : memory.read (address + 1) = opcode := (List.cons.inj htail).1
      have hplain : memory.read (address + 1) ≠ 0xCB := by
        intro hbits
        have hnone : Page.indexedEntry? index 0xCB = some entry := hbits ▸ hentry
        rw [indexedEntry_lead] at hnone
        exact Option.some_ne_none _ hnone.symm
      exact .of_plain ((code_of_lead hlead).trans (if_neg hplain)) rfl hentry
  | indexedBits index =>
      have hcode : memory.code address = { page := .indexedBits index, opcode, displacement } := by
        obtain ⟨hlead, htail⟩ := List.cons.inj hslice
        obtain ⟨hbits, htail⟩ := List.cons.inj htail
        obtain ⟨hdisplacement, htail⟩ := List.cons.inj htail
        have hopcode := (List.cons.inj htail).1
        have hthird : address + 1 + 1 = address + 2 := BitVec.add_assoc ..
        have hfourth : address + 2 + 1 = address + 3 := BitVec.add_assoc ..
        rw [hthird] at hdisplacement hopcode
        rw [hfourth] at hopcode
        rw [code_of_lead hlead, indexedCode, if_pos hbits, hdisplacement, hopcode]
      exact ⟨by rw [entryAt?, hcode, hentry], congrArg Code.bytes hcode,
        congrArg Code.shownBytes hcode⟩

end Memory

/-! ## Recording -/

/-- The trace tells of an entry that a code selects: the bytes that it shows as the opcode and as
operands are those of the code, with operand bytes of any kind behind them. It may stand at any
address. -/
structure Trace.Tells (trace : Trace) (code : Code) (entry : Entry) : Prop where
  listed : code.entry? = some entry
  opcode : trace.opcode = code.shownBytes
  operands : ∃ immediates : List Byte, immediates.length = entry.instruction.operandCount ∧
    trace.opcode ++ trace.operands = code.bytes ++ immediates
  name : trace.name = entry.name
  cost : trace.cost = entry.cost

/-- The trace tells of some entry of the instruction set. -/
def Trace.Possible (trace : Trace) : Prop :=
  ∃ code entry, trace.Tells code entry

/-- Both the opcode and the operands that a trace shows are two bytes at most. -/
theorem Trace.Tells.length_le {trace : Trace} {code : Code} {entry : Entry}
    (htells : trace.Tells code entry) : trace.opcode.length ≤ 2 ∧ trace.operands.length ≤ 2 := by
  obtain ⟨immediates, hcount, hspelled⟩ := htells.operands
  have htotal := congrArg List.length hspelled
  rw [List.length_append, List.length_append, hcount, htells.opcode] at htotal
  have hfull := (Code.fullLength_bounds htells.listed).2
  have hread := entry.instruction.operandCount_le
  rw [Code.fullLength] at hfull
  rw [htells.opcode]
  obtain ⟨page, opcode, displacement⟩ := code
  cases page with
  | unprefixed =>
      -- the opcode alone spells the code
      change 1 + trace.operands.length = 1 + _ at htotal
      exact ⟨Nat.le_succ 1, Nat.add_left_cancel htotal ▸ hread⟩
  | bits | extended | indexed | indexedBits =>
      -- of four bytes at most, two are shown as the opcode
      change 2 + trace.operands.length = _ at htotal
      exact ⟨Nat.le_refl 2, Nat.le_of_add_le_add_left (htotal ▸ hfull)⟩

namespace Machine

variable {machine : Machine} {trace : Trace}

/-- Among the traces that a step of the machine records is this one. -/
def Emits (machine : Machine) (trace : Trace) : Prop :=
  ∃ traces, ExtendsBy machine.log machine.step.log traces ∧ trace ∈ traces

theorem traceOf_tells {entry : Entry}
    (hentry : machine.memory.entryAt? machine.registers.pc = some entry) :
    (machine.traceOf entry (machine.begun.fetchCode.2.perform entry)).Tells
      (machine.memory.code machine.registers.pc) entry where
  listed := hentry
  opcode := rfl
  operands := by
    have hperforms := machine.begun.fetchCode.2.perform_performs hentry
    refine ⟨Memory.slice machine.begun.fetchCode.2.memory
      machine.begun.fetchCode.2.registers.pc _, Memory.length_slice .., ?_⟩
    exact begun_fetches.shown_operands hentry hperforms
  name := rfl
  cost := rfl

/-- Whatever a step records tells of an entry. -/
theorem Emits.possible (hemits : machine.Emits trace) : trace.Possible := by
  obtain ⟨traces, hextends, hmem⟩ := hemits
  obtain ⟨recorded, hstep, hrecorded⟩ := machine.step_traces
  obtain rfl := hextends.unique hrecorded
  cases hstep with
  | served | idle | unhandled => exact absurd hmem List.not_mem_nil
  | executed hexecutes hentry _ =>
      have hone := hextends.unique (hexecutes.extends_traceOf hentry)
      rw [hone, List.mem_singleton] at hmem
      exact hmem ▸ ⟨_, _, traceOf_tells hentry⟩

/-- A machine that comes to the bytes of a trace which tells of an entry records it. -/
theorem Executes.emits (hexecutes : machine.Executes) {code : Code} {entry : Entry}
    (htells : trace.Tells code entry) (haddress : machine.registers.pc = trace.address)
    (hslice : machine.memory.slice machine.registers.pc (trace.opcode ++ trace.operands).length =
      trace.opcode ++ trace.operands) : machine.Emits trace := by
  obtain ⟨immediates, hcount, hspelled⟩ := htells.operands
  have hlength : (trace.opcode ++ trace.operands).length = code.fullLength entry := by
    rw [hspelled, List.length_append, hcount, Code.fullLength]
  have hcode : machine.memory.slice machine.registers.pc code.bytes.length = code.bytes := by
    rw [hlength, hspelled, Code.fullLength, Memory.slice_add] at hslice
    exact (List.append_inj hslice (Memory.length_slice ..)).1
  have hspells := Memory.spells_of_slice htells.listed hcode
  have hperforms := machine.begun.fetchCode.2.perform_performs hspells.entry
  have hoperands : (machine.begun.fetchCode.2.perform entry).operands.toList = trace.operands := by
    have hread := begun_fetches.slice_eq hspells.entry hperforms
    rw [Code.fullLength, hspells.bytes, hspells.shown, ← htells.opcode] at hread
    rw [hlength] at hslice
    exact List.append_cancel_left (hread.trans hslice)
  have hsame : machine.traceOf entry (machine.begun.fetchCode.2.perform entry) = trace := by
    rw [traceOf, hspells.shown, haddress, hoperands, ← htells.opcode, ← htells.name, ← htells.cost]
  exact ⟨_, hexecutes.extends_traceOf hspells.entry, List.mem_singleton.2 hsame.symm⟩

end Machine

/-- Machines record the traces that tell of an entry of the instruction set, and no others. -/
theorem Trace.possible_iff {trace : Trace} :
    trace.Possible ↔ ∃ machine : Machine, machine.Emits trace := by
  refine ⟨?_, fun ⟨_, hemits⟩ => hemits.possible⟩
  rintro ⟨code, entry, htells⟩
  have hlength := htells.length_le
  have hfits : (trace.opcode ++ trace.operands).length ≤ 65536 := by
    rw [List.length_append]
    omega
  -- the bytes of the trace, loaded where it says
  let machine : Machine :=
    { memory := Memory.blank.load trace.address (trace.opcode ++ trace.operands)
      registers.pc := trace.address }
  have hexecutes : machine.Executes := ⟨rfl, rfl, .inl rfl⟩
  exact ⟨machine, hexecutes.emits htells rfl (Memory.slice_load _ _ hfits)⟩

end Z80
