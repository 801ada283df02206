import Mathlib.Algebra.GroupWithZero.Nat
import Mathlib.Data.List.DropRight
import Z80.Proofs.Tracing.Emission

/-!
# The columns of a trace line

Every text of a trace that a machine can record fits its column: the opcode and the operands are at
most two bytes each, and the names are those of the instruction set. So the texts stand in the same
columns of every line, where they can be cut out again, and a line tells which trace it shows
(`Trace.unambiguous`).
-/

namespace Z80

/-! ## Cutting out columns -/

/-- The part of a text from one column up to another. -/
def cut (first last : Nat) (text : String) : String :=
  String.ofList ((text.toList.take last).drop first)

/-- A text without the spaces at its end. -/
def trimmed (text : String) : String :=
  String.ofList (text.toList.rdropWhile (· == ' '))

/-- A text does not end in a space. -/
def EndsTight (text : String) : Prop :=
  text.toList.getLast? ≠ some ' '

/-- `EndsTight` is decidable by one comparison. -/
instance (text : String) : Decidable (EndsTight text) :=
  inferInstanceAs (Decidable (_ ≠ _))

theorem cut_append_left (text rest : String) : cut 0 text.length (text ++ rest) = text := by
  rw [cut, String.toList_append, ← String.length_toList, List.take_left, List.drop_zero,
    String.ofList_toList]

theorem cut_append_right (text rest : String) (first last : Nat) :
    cut (text.length + first) (text.length + last) (text ++ rest) = cut first last rest := by
  rw [cut, String.toList_append, ← String.length_toList, List.take_length_add_append,
    List.drop_length_add_append]
  rfl

/-- Of texts in a row, each stands in the columns behind those before it. -/
theorem cut_join {texts : List String} {index : Nat} (hindex : index < texts.length) :
    cut ((texts.map String.length).take index).sum ((texts.map String.length).take (index + 1)).sum
      (String.join texts) = texts[index] := by
  induction texts generalizing index with
  | nil => exact absurd hindex (Nat.not_lt_zero _)
  | cons text rest ih =>
      cases index with
      | zero => simp [String.join_cons, cut_append_left]
      | succ index =>
          rw [String.join_cons, List.map_cons, List.take_succ_cons, List.take_succ_cons,
            List.sum_cons, List.sum_cons, cut_append_right]
          exact ih (Nat.lt_of_succ_lt_succ hindex)

theorem EndsTight.append (before : String) {text : String} (htight : EndsTight text)
    (hnonempty : text ≠ "") : EndsTight (before ++ text) := by
  have hchars : text.toList ≠ [] := fun hnone => hnonempty (String.toList_eq_nil_iff.1 hnone)
  rw [EndsTight, String.toList_append, List.getLast?_append_of_ne_nil _ hchars]
  exact htight

theorem trimmed_of_endsTight {text : String} (htight : EndsTight text) : trimmed text = text := by
  have hkept : text.toList.rdropWhile (· == ' ') = text.toList := by
    refine List.rdropWhile_eq_self_iff.2 fun hnonempty hspace => htight ?_
    rw [List.getLast?_eq_some_getLast hnonempty, eq_of_beq hspace]
  rw [trimmed, hkept, String.ofList_toList]

/-- Trimming takes away what fills a column. -/
theorem trimmed_column (width : Nat) {text : String} (htight : EndsTight text) :
    trimmed (Trace.column width text) = text := by
  have hfilled : ∀ count, (text.toList ++ List.replicate count ' ').rdropWhile (· == ' ') =
      text.toList.rdropWhile (· == ' ') := by
    intro count
    induction count with
    | zero => simp
    | succ count ih =>
        rw [List.replicate_succ', ← List.append_assoc, List.rdropWhile_concat_pos _ _ _ (by simp)]
        exact ih
  rw [trimmed, Trace.column, String.toList_append, String.toList_ofList, hfilled]
  exact trimmed_of_endsTight htight

theorem length_column {width : Nat} {text : String} (hfits : text.length ≤ width) :
    (Trace.column width text).length = width := by
  rw [Trace.column, String.length_append, String.length_ofList, List.length_replicate]
  omega

/-! ## What the texts of a trace are like -/

namespace Hexadecimal

/-- Each byte takes up three columns, with the space behind it. -/
theorem length_bytes (values : List Byte) : (bytes values).length = 3 * values.length - 1 := by
  rw [← String.length_toList]
  induction values with
  | nil => rfl
  | cons value values ih =>
      cases values with
      | nil => rw [toList_bytes_singleton]; rfl
      | cons next values =>
          rw [toList_bytes_cons, List.length_append, List.length_cons, ih]
          simp [byteDigits]
          omega

theorem getLast?_byteDigits (value : Byte) (before : List Char) :
    (before ++ byteDigits value).getLast? ≠ some ' ' := by
  rw [byteDigits, List.getLast?_append]
  simpa using digit_ne_space _

theorem endsTight_bytes (values : List Byte) : EndsTight (bytes values) := by
  unfold EndsTight
  induction values with
  | nil => decide
  | cons value values ih =>
      cases values with
      | nil =>
          rw [toList_bytes_singleton]
          exact getLast?_byteDigits value []
      | cons next values =>
          have hnonempty : (bytes (next :: values)).toList ≠ [] := by
            rw [← List.length_pos_iff, String.length_toList, length_bytes, List.length_cons]
            omega
          rw [toList_bytes_cons, List.getLast?_append_cons, List.getLast?_cons_of_ne_nil hnonempty]
          exact ih

theorem endsTight_word (value : Word) : EndsTight (word value) := by
  rw [EndsTight, word, String.toList_ofList]
  exact getLast?_byteDigits _ _

end Hexadecimal

theorem Cost.endsTight_description (cost : Cost) : EndsTight cost.description := by
  cases cost with
  | fixed cycles => exact EndsTight.append _ (by decide) (by decide)
  | dynamic => decide

/-- Costs with the same text are the same. -/
theorem Cost.description_injective : Function.Injective Cost.description := by
  have hdynamic : description .dynamic = "dynamic" ++ " cycles" := rfl
  -- a number is written with digits
  have hother : ∀ cycles : BitVec 32, description (.fixed cycles) ≠ description .dynamic := by
    intro cycles hsame
    rw [hdynamic, description, String.append_left_inj, Nat.toString_eq_repr] at hsame
    have hletter : 'd' ∈ Nat.toDigits 10 cycles.toNat := by
      rw [← Nat.toList_repr, hsame]
      decide
    exact absurd (Nat.isDigit_of_mem_toDigits (by decide) (by decide) hletter) (by decide)
  intro first second hsame
  cases first with
  | fixed cycles =>
      cases second with
      | fixed others =>
          rw [description, description, String.append_left_inj] at hsame
          -- reading the digits back
          have hvalue := congrArg (fun text => Nat.ofDigitChars 10 text.toList 0) hsame
          simp only [Nat.toString_eq_repr, Nat.toList_repr, Nat.ofDigitChars_ten_toDigits] at hvalue
          rw [BitVec.eq_of_toNat_eq hvalue]
      | dynamic => exact absurd hsame (hother cycles)
  | dynamic =>
      cases second with
      | fixed cycles => exact absurd hsame.symm (hother cycles)
      | dynamic => rfl

/-- A name fits its column, and it can be told from the spaces behind it. -/
def IsColumnName (name : String) : Prop :=
  name.length ≤ 14 ∧ EndsTight name

/-- `IsColumnName` is decidable by its two parts. -/
instance (name : String) : Decidable (IsColumnName name) :=
  inferInstanceAs (Decidable (_ ∧ _))

theorem Shift.length_mnemonic_le (shift : Shift) : shift.mnemonic.length ≤ 3 := by
  cases shift <;> decide

theorem Page.isColumnName_bitName {operand : String} (hfits : operand.length ≤ 8)
    (htight : EndsTight operand) (hnonempty : operand ≠ "") (opcode : Byte) :
    IsColumnName (Page.bitName opcode operand) := by
  have hshort {operation : String} (hoperation : operation.length ≤ 6) :
      IsColumnName (operation ++ operand) := by
    refine ⟨?_, htight.append operation hnonempty⟩
    rw [String.length_append]
    omega
  unfold Page.bitName
  split
  · refine hshort ?_
    rw [String.length_append]
    exact Nat.add_le_add_right ((Shift.length_mnemonic_le _).trans (by decide)) 1
  · exact hshort (by decide)
  · exact hshort (by decide)
  · exact hshort (by decide)

/-- The names of the whole instruction set are column names. -/
theorem Code.isColumnName {code : Code} {entry : Entry} (hentry : code.entry? = some entry) :
    IsColumnName entry.name := by
  refine Code.forall_entry (fun entry => IsColumnName entry.name) ?_ ?_ ?_ ?_ ?_ hentry
  · decide +kernel
  · exact Page.isColumnName_bitName (by decide) (by decide) (by decide)
  · decide +kernel
  · intro index
    cases index <;> decide +kernel
  · intro index displacement
    cases index <;> exact Page.isColumnName_bitName (by decide) (by decide) (by decide)

/-! ## The columns of a line -/

/-- What a line shows of a trace. -/
structure Texts where
  address : String
  opcode : String
  name : String
  operands : String
  description : String
deriving DecidableEq

/-- The texts of a trace. -/
def Trace.texts (trace : Trace) : Texts where
  address := Hexadecimal.word trace.address
  opcode := trace.opcodeText
  name := trace.name
  operands := trace.operandText
  description := trace.description

/-- The texts that are cut out of a line. -/
def Texts.ofLine (line : String) : Texts where
  address := trimmed (cut 0 4 line)
  opcode := trimmed (cut 6 12 line)
  name := trimmed (cut 13 27 line)
  operands := trimmed (cut 28 34 line)
  description := trimmed (cut 37 line.length line)

namespace Trace

/-- Different traces have different texts. -/
theorem texts_injective : Function.Injective texts := by
  rintro ⟨address, opcode, operands, name, cost⟩ ⟨address', opcode', operands', name', cost'⟩ hsame
  simp only [texts, opcodeText, operandText, description, Texts.mk.injEq] at hsame
  obtain ⟨haddress, hopcode, rfl, hoperands, hcost⟩ := hsame
  rw [Hexadecimal.word_injective haddress, Hexadecimal.bytes_injective hopcode,
    Hexadecimal.bytes_injective hoperands, Cost.description_injective hcost]

/-- The texts of the trace fit their columns. -/
structure Fits (trace : Trace) : Prop where
  opcode : trace.opcodeText.length ≤ 6
  name : trace.name.length ≤ 14
  operands : trace.operandText.length ≤ 6

/-- The columns of a line, with what stands between them. -/
def cells (trace : Trace) : List String :=
  [Hexadecimal.word trace.address, ": ", column 6 trace.opcodeText, " ", column 14 trace.name, " ",
    column 6 trace.operandText, " ; ", trace.description]

theorem line_eq_join (trace : Trace) : trace.line = String.join trace.cells := by
  simp [line, cells, String.join_cons, String.append_assoc]

theorem Fits.widths {trace : Trace} (hfits : trace.Fits) :
    trace.cells.map String.length = [4, 2, 6, 1, 14, 1, 6, 3, trace.description.length] := by
  have hword : (Hexadecimal.word trace.address).length = 4 := by
    rw [Hexadecimal.word, String.length_ofList]
    rfl
  rw [cells, List.map_cons, hword]
  simp only [List.map_cons, List.map_nil, length_column hfits.opcode, length_column hfits.name,
    length_column hfits.operands]
  rfl

/-- Where the texts fit, each cell of a line stands in columns of its own. -/
theorem Fits.cut_line {trace : Trace} (hfits : trace.Fits) {index : Nat}
    (hindex : index < trace.cells.length) :
    cut ([4, 2, 6, 1, 14, 1, 6, 3, trace.description.length].take index).sum
      ([4, 2, 6, 1, 14, 1, 6, 3, trace.description.length].take (index + 1)).sum trace.line =
        trace.cells[index] := by
  rw [line_eq_join, ← hfits.widths]
  exact cut_join hindex

/-- The line shows every text of the trace in the columns of its own, where it can be cut out, and
has signs between them. -/
structure InColumns (trace : Trace) : Prop extends Fits trace where
  separated : cut 4 6 trace.line = ": " ∧ cut 12 13 trace.line = " " ∧
    cut 27 28 trace.line = " " ∧ cut 34 37 trace.line = " ; "
  recovered : Texts.ofLine trace.line = trace.texts

theorem Tells.fits {trace : Trace} {code : Code} {entry : Entry}
    (htells : trace.Tells code entry) : trace.Fits where
  opcode := by
    have hlength := htells.length_le.1
    rw [opcodeText, Hexadecimal.length_bytes]
    omega
  name := by
    rw [htells.name]
    exact (Code.isColumnName htells.listed).1
  operands := by
    have hlength := htells.length_le.2
    rw [operandText, Hexadecimal.length_bytes]
    omega

theorem Fits.inColumns {trace : Trace} (hfits : trace.Fits) (hname : EndsTight trace.name) :
    trace.InColumns where
  toFits := hfits
  separated :=
    ⟨hfits.cut_line (show 1 < 9 by decide), hfits.cut_line (show 3 < 9 by decide),
      hfits.cut_line (show 5 < 9 by decide), hfits.cut_line (show 7 < 9 by decide)⟩
  recovered := by
    have haddress : cut 0 4 trace.line = Hexadecimal.word trace.address :=
      hfits.cut_line (show 0 < 9 by decide)
    have hopcode : cut 6 12 trace.line = column 6 trace.opcodeText :=
      hfits.cut_line (show 2 < 9 by decide)
    have hnamed : cut 13 27 trace.line = column 14 trace.name :=
      hfits.cut_line (show 4 < 9 by decide)
    have hoperands : cut 28 34 trace.line = column 6 trace.operandText :=
      hfits.cut_line (show 6 < 9 by decide)
    have hdescription : cut 37 trace.line.length trace.line = trace.description := by
      rw [line_eq_join, String.length_join, hfits.widths, ← line_eq_join]
      exact hfits.cut_line (show 8 < 9 by decide)
    rw [Texts.ofLine, haddress, hopcode, hnamed, hoperands, hdescription, trimmed_column,
      trimmed_column, trimmed_column, trimmed_of_endsTight, trimmed_of_endsTight, texts]
    · exact trace.cost.endsTight_description
    · exact Hexadecimal.endsTight_word _
    · exact Hexadecimal.endsTight_bytes _
    · exact hname
    · exact Hexadecimal.endsTight_bytes _

theorem Possible.inColumns {trace : Trace} (hpossible : trace.Possible) : trace.InColumns := by
  obtain ⟨code, entry, htells⟩ := hpossible
  refine htells.fits.inColumns ?_
  rw [htells.name]
  exact (Code.isColumnName htells.listed).2

/-- The traces that a machine can record are those that tell of any entry of the instruction set, at
any address and with any operands. They stand in the columns of their lines, and no two of them have
the same line. -/
theorem unambiguous :
    (∀ trace : Trace, trace.Possible ↔ ∃ machine : Machine, machine.Emits trace) ∧
      (∀ trace : Trace, trace.Possible → trace.InColumns) ∧
      ∀ first second : Trace, first.Possible → second.Possible → first.line = second.line →
        first = second := by
  refine ⟨fun _ => possible_iff, fun _ hpossible => hpossible.inColumns, ?_⟩
  intro first second hfirst hsecond hsame
  apply texts_injective
  rw [← hfirst.inColumns.recovered, hsame, hsecond.inColumns.recovered]

/-- Two machines in different states that come to the same bit test: their traces have the same
line, so they are the same. -/
theorem unambiguous_of_bit_test :
    let program : Memory := Memory.blank.load 0 [0xDD, 0xCB, 0x05, 0x46]
    let machine : Machine := { memory := program }
    let other : Machine := { memory := program.write 5 1, registers.r := 7 }
    let trace : Trace := ⟨0, [0xDD, 0xCB], [0x05, 0x46], "BIT b,(IX+d)", .fixed 20⟩
    let otherTrace : Trace := other.traceOf ⟨.testBit 0 (.offset .ix 5), "BIT b,(IX+d)", .fixed 20⟩
      other.step
    machine.Emits trace ∧ other.Emits otherTrace ∧
      trace.line = "0000: DD CB  BIT b,(IX+d)   05 46  ; 20 cycles" ∧ trace.InColumns ∧
      trace.line = otherTrace.line ∧ trace = otherTrace := by
  intro program machine other trace otherTrace
  have hemits : machine.Emits trace :=
    ⟨[trace], ⟨[.executed trace], by decide +kernel, rfl⟩, List.mem_singleton_self trace⟩
  have hother : other.Emits otherTrace :=
    ⟨[otherTrace], ⟨[.executed otherTrace], by decide +kernel, rfl⟩, List.mem_singleton_self _⟩
  have hpossible := (unambiguous.1 trace).2 ⟨machine, hemits⟩
  have hotherPossible := (unambiguous.1 otherTrace).2 ⟨other, hother⟩
  have hline : trace.line = otherTrace.line := by decide +kernel
  exact ⟨hemits, hother, by decide +kernel, unambiguous.2.1 trace hpossible, hline,
    unambiguous.2.2 trace otherTrace hpossible hotherPossible hline⟩

end Trace

end Z80
