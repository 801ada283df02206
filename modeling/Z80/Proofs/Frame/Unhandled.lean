import Z80.Proofs.Frame.Fetch
import Z80.Proofs.Tracing.Run

/-!
# Bytes that select no instruction

Only behind the leading bytes of the page of extensions and of the index registers can an opcode
select nothing (`Memory.page_of_none`). A step that finds one passes the two bytes and reports them,
and otherwise does nothing (`Machine.Unhandled.step_eq`). No other step makes such a report.
-/

namespace Z80

/-! ## Bytes that always select an instruction -/

/-- On the page without leading bytes only the leading bytes themselves are missing. -/
theorem Page.isSome_unprefixedEntry :
    ∀ opcode ∉ [0xCB, 0xDD, 0xED, 0xFD], (Page.unprefixedEntry? opcode).isSome := by
  decide +kernel

namespace Memory

variable {memory : Memory} {address : Word}

/-- Behind the leading byte of an index register, bit operations always select an instruction. -/
theorem page_of_indexed_none {index : Index} (hcode : memory.code address =
      memory.indexedCode address index) (hnone : memory.entryAt? address = none) :
    memory.read (address + 1) ≠ 0xCB ∧ (memory.code address).page = .indexed index := by
  rw [entryAt?, hcode] at hnone
  rw [hcode]
  unfold indexedCode at hnone ⊢
  by_cases hbits : memory.read (address + 1) = 0xCB
  · rw [if_pos hbits] at hnone
    exact absurd hnone (Option.some_ne_none _)
  · rw [if_neg hbits]
    exact ⟨hbits, rfl⟩

/-- Where the bytes select nothing, they begin with a leading byte whose page has gaps. -/
theorem page_of_none (hnone : memory.entryAt? address = none) :
    memory.read address = 0xED ∧ (memory.code address).page = .extended ∨
      ∃ index : Index, memory.read address = index.leadByte ∧
        memory.read (address + 1) ≠ 0xCB ∧ (memory.code address).page = .indexed index := by
  by_cases hbits : memory.read address = 0xCB
  · rw [entryAt?, code, if_pos hbits] at hnone
    exact absurd hnone (Option.some_ne_none _)
  by_cases hextended : memory.read address = 0xED
  · refine .inl ⟨hextended, ?_⟩
    rw [code, if_neg hbits, if_pos hextended]
  by_cases hix : memory.read address = Index.leadByte .ix
  · have hcode : memory.code address = memory.indexedCode address .ix := by
      rw [code, if_neg hbits, if_neg hextended, if_pos hix]
    exact .inr ⟨.ix, hix, page_of_indexed_none hcode hnone⟩
  by_cases hiy : memory.read address = Index.leadByte .iy
  · have hcode : memory.code address = memory.indexedCode address .iy := by
      rw [code, if_neg hbits, if_neg hextended, if_neg hix, if_pos hiy]
    exact .inr ⟨.iy, hiy, page_of_indexed_none hcode hnone⟩
  · have hplain : memory.read address ∉ [0xCB, 0xDD, 0xED, 0xFD] := by
      simp only [List.mem_cons, List.not_mem_nil, or_false, not_or]
      exact ⟨hbits, hix, hextended, hiy⟩
    have hsome := Page.isSome_unprefixedEntry _ hplain
    rw [entryAt?, code, if_neg hbits, if_neg hextended, if_neg hix, if_neg hiy] at hnone
    exact absurd hnone (Option.isSome_iff_ne_none.1 hsome)

/-- Bytes select an instruction if the first of them is no leading byte, or that of bit operations,
or if it is that of an index register and bit operations follow. -/
theorem isSome_entryAt (hfirst : memory.read address ∉ [0xDD, 0xED, 0xFD] ∨
      memory.read address ∈ [0xDD, 0xFD] ∧ memory.read (address + 1) = 0xCB) :
    (memory.entryAt? address).isSome := by
  rw [Option.isSome_iff_ne_none]
  intro hnone
  rcases page_of_none hnone with ⟨hlead, _⟩ | ⟨index, hlead, hsecond, _⟩
  · rw [hlead] at hfirst
    rcases hfirst with hplain | ⟨hindexed, _⟩
    · exact hplain (by decide)
    · exact absurd hindexed (by decide)
  · rcases hfirst with hplain | ⟨_, hbits⟩
    · rw [hlead] at hplain
      exact hplain (by cases index <;> decide)
    · exact hsecond hbits

end Memory

/-! ## Skipping -/

namespace Machine

variable {machine : Machine}

/-- What a skip does: it reports the two bytes and where they stand, goes on behind them and counts
two refreshes and four cycles. The operands of the instruction before are forgotten. -/
def skipped (machine : Machine) : Machine :=
  { machine with
    registers := { machine.registers.refresh 2 with pc := machine.registers.pc + 2 }
    cycles := machine.cycles.begin.spend 4
    operands := {}
    log := machine.log.push (.fault (.unhandledOpcode
      [machine.read machine.registers.pc, machine.read (machine.registers.pc + 1)]
      machine.registers.pc)) }

/-- The code that selects nothing is a leading byte and an opcode, and a trace would show both. -/
theorem Unhandled.code_eq (hunhandled : machine.Unhandled) :
    let code := machine.memory.code machine.registers.pc
    code.bytes.length = 2 ∧ code.shownBytes = code.bytes ∧ code.page.refreshes = 2 := by
  rcases Memory.page_of_none hunhandled.none with ⟨_, hpage⟩ | ⟨_, _, _, hpage⟩ <;>
    simp [Code.bytes, Code.shownBytes, hpage, Page.displacementFirst, Page.leadBytes,
      Page.refreshes]

theorem Unhandled.step_eq (hunhandled : machine.Unhandled) : machine.step = machine.skipped := by
  obtain ⟨hlength, hshown, hrefreshes⟩ := hunhandled.code_eq
  have hfetches := machine.begun_fetches
  have hbytes : (machine.memory.code machine.registers.pc).bytes =
      [machine.read machine.registers.pc, machine.read (machine.registers.pc + 1)] := by
    rw [← hfetches.spelled, hlength]
    rfl
  have hpc : machine.begun.fetchCode.2.registers.pc = machine.registers.pc + 2 := by
    rw [hfetches.pc, hlength]
    rfl
  have hr : machine.begun.fetchCode.2.registers.r = (machine.registers.refresh 2).r := by
    rw [r_fetchCode, ← hrefreshes]
    rfl
  have hoperands : machine.begun.fetchCode.2.operands = {} := by
    have hbehind := hfetches.shown
    rw [hshown] at hbehind
    exact OperandBytes.ext_toList (List.append_right_eq_self.1 hbehind)
  have hfetched : machine.begun.fetchCode.2 = machine.begun.moved (machine.registers.pc + 2)
      (machine.registers.refresh 2).r {} machine.cycles.begin := by
    obtain ⟨r, operands, hmoved⟩ := machine.begun.fetchCode_moved
    rw [hpc] at hmoved
    rw [hmoved] at hr hoperands
    obtain rfl : r = (machine.registers.refresh 2).r := hr
    obtain rfl : operands = {} := hoperands
    exact hmoved
  rw [hunhandled.executes.step_eq_elim, hunhandled.none, Option.elim_none, hbytes, hfetched]
  rfl

/-- At the end of memory the second of the two bytes is the first of memory. -/
example :
    let machine : Machine :=
      { registers := { pc := 0xFFFF, r := 0xFF }, memory := Memory.blank.load 0xFFFF [0xDD, 0x00] }
    machine.step.registers = { pc := 0x0001, r := 0x81 } := by
  decide +kernel

/-- A skip counts its refreshes in the low seven bits of `R` and leaves the top bit alone. -/
theorem r_skipped (machine : Machine) :
    machine.skipped.registers.r.setWidth 7 = machine.registers.r.setWidth 7 + 2 ∧
      machine.skipped.registers.r.msb = machine.registers.r.msb :=
  ⟨machine.registers.setWidth_r_refresh 2, machine.registers.msb_r_refresh 2⟩

/-- A step that finds an instruction, or that executes none, reports no bytes as selecting none. -/
theorem skipsNothing_step (hhandled : ¬machine.Unhandled) :
    SkipsNothing machine.log machine.step.log := by
  obtain ⟨_, _, hkeeps⟩ := step_keepsBut hhandled
  exact hkeeps.log

end Machine

namespace Emulator

variable {σ : Type} [Observer σ]

/-- What becomes of bytes that select no instruction, and where there are none. -/
structure SkipFrame (emulator : Emulator σ) : Prop where
  skipped : emulator.machine.Unhandled →
    let machine := emulator.machine
    let found := [machine.read machine.registers.pc, machine.read (machine.registers.pc + 1)]
    let message := "Unhandled opcode " ++ Hexadecimal.bytes found ++ " at " ++
      Hexadecimal.word machine.registers.pc
    emulator.step =
      (4, { emulator with
        machine := machine.skipped
        observer := Observer.error message emulator.observer })
  refreshed :
    emulator.machine.skipped.registers.r.setWidth 7 =
        emulator.machine.registers.r.setWidth 7 + 2 ∧
      emulator.machine.skipped.registers.r.msb = emulator.machine.registers.r.msb
  reported : ¬emulator.machine.Unhandled → ∃ events : List Event,
    emulator.step.2.machine.log.toList = emulator.machine.log.toList ++ events ∧
      (∀ event ∈ events, event.isSkip = false) ∧
      emulator.step.2.observer = events.foldl
        (Observer.observe emulator.config.traceInstructions) emulator.observer
  complete : ∀ (memory : Memory) (address : Word),
    (memory.read address ∉ [0xDD, 0xED, 0xFD] ∨
      memory.read address ∈ [0xDD, 0xFD] ∧ memory.read (address + 1) = 0xCB) →
    (memory.entryAt? address).isSome

theorem step_of_unhandled {emulator : Emulator σ} (hunhandled : emulator.machine.Unhandled) :
    emulator.step =
      (4, { emulator with
        machine := emulator.machine.skipped
        observer := Observer.error
          (Fault.unhandledOpcode [emulator.machine.read emulator.machine.registers.pc,
            emulator.machine.read (emulator.machine.registers.pc + 1)]
            emulator.machine.registers.pc).message
          emulator.observer }) := by
  have hlog : emulator.machine.step.log.toList = emulator.machine.log.toList ++
      [.fault (.unhandledOpcode [emulator.machine.read emulator.machine.registers.pc,
        emulator.machine.read (emulator.machine.registers.pc + 1)]
        emulator.machine.registers.pc)] := by
    rw [hunhandled.step_eq]
    exact Array.toList_push
  rw [step_eq_of_log hlog, hunhandled.step_eq]
  rfl

/-- Unknown opcodes are passed and reported, known ones are not reported as unknown, and most bytes
begin a known one. -/
theorem skipFrame (emulator : Emulator σ) : emulator.SkipFrame where
  skipped := step_of_unhandled
  refreshed := emulator.machine.r_skipped
  reported hhandled := by
    obtain ⟨events, hlog, hskips⟩ := Machine.skipsNothing_step hhandled
    exact ⟨events, hlog, hskips, congrArg (·.2.observer) (step_eq_of_log hlog)⟩
  complete _ _ := Memory.isSome_entryAt

end Emulator

end Z80
