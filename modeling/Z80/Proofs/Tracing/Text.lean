import Z80.Trace

/-!
# Reading bytes from text

A reader of upper-case hexadecimal bytes, written without regard to how a trace prints them. Reading
the opcode text of a trace followed by its operand text yields the bytes of both
(`Trace.read_texts`).
-/

namespace Z80

namespace Hexadecimal

/-- The value of an upper-case digit. -/
def digit? (character : Char) : Option (BitVec 4) :=
  if '0' ≤ character ∧ character ≤ '9' then some (.ofNat 4 (character.toNat - '0'.toNat))
  else if 'A' ≤ character ∧ character ≤ 'F' then some (.ofNat 4 (character.toNat - 'A'.toNat + 10))
  else none

/-- The bytes in a text of two digits each, which spaces may stand between. -/
def readDigits? : List Char → Option (List Byte)
  | [] => some []
  | ' ' :: rest => readDigits? rest
  | high :: low :: rest => do
      let high ← digit? high
      let low ← digit? low
      let values ← readDigits? rest
      return (high ++ low) :: values
  | _ => none

/-- The bytes that a text spells in upper-case hexadecimal. -/
def read? (text : String) : Option (List Byte) :=
  readDigits? text.toList

-- There are sixteen digits.
theorem digit?_digit : ∀ value : Fin 16, digit? (digit value) = some (.ofFin value) := by
  decide

theorem digit_ne_space : ∀ value : Fin 16, digit value ≠ ' ' := by
  decide

theorem readDigits?_byteDigits_append (value : Byte) (rest : List Char) :
    readDigits? (byteDigits value ++ rest) = (readDigits? rest).map (value :: ·) := by
  have hhalves : value.extractLsb' 4 4 ++ value.extractLsb' 0 4 = value := by
    rw [BitVec.extractLsb'_append_extractLsb'_eq_extractLsb' (by decide)]
    exact BitVec.extractLsb'_eq_self
  have hhigh := digit?_digit (value.extractLsb' 4 4).toFin
  have hlow := digit?_digit (value.extractLsb' 0 4).toFin
  rw [byteDigits, List.cons_append, List.cons_append, List.nil_append, readDigits?, hhigh, hlow]
  · cases readDigits? rest with
    | none => rfl
    | some values => exact congrArg (fun first => some (first :: values)) hhalves
  · exact digit_ne_space _

theorem readDigits?_space (rest : List Char) : readDigits? (' ' :: rest) = readDigits? rest := by
  rw [readDigits?]

theorem toList_bytes_singleton (value : Byte) : (bytes [value]).toList = byteDigits value := by
  simp [bytes, byte]

theorem toList_bytes_cons (value next : Byte) (values : List Byte) :
    (bytes (value :: next :: values)).toList =
      byteDigits value ++ ' ' :: (bytes (next :: values)).toList := by
  simp [bytes, String.toList_intercalate, byte]

/-- Reading undoes printing, whatever text comes next. -/
theorem readDigits?_bytes_append (values : List Byte) (rest : List Char) :
    readDigits? ((bytes values).toList ++ rest) = (readDigits? rest).map (values ++ ·) := by
  induction values with
  | nil => simp [bytes]
  | cons value values ih =>
      cases values with
      | nil =>
          rw [toList_bytes_singleton, readDigits?_byteDigits_append]
          rfl
      | cons next values =>
          rw [toList_bytes_cons, List.append_assoc, readDigits?_byteDigits_append,
            List.cons_append, readDigits?_space, ih, Option.map_map]
          rfl

theorem read?_bytes (values : List Byte) : read? (bytes values) = some values := by
  have hread := readDigits?_bytes_append values []
  rw [List.append_nil] at hread
  rw [read?, hread]
  simp [readDigits?]

theorem read?_word (value : Word) : read? (word value) = some [highByte value, lowByte value] := by
  have hlow := readDigits?_byteDigits_append (lowByte value) []
  rw [List.append_nil] at hlow
  rw [read?, word, String.toList_ofList, readDigits?_byteDigits_append, hlow]
  simp [readDigits?]

/-- Bytes with the same text are the same. -/
theorem bytes_injective : Function.Injective bytes := by
  intro first second hsame
  have hread := congrArg read? hsame
  rw [read?_bytes, read?_bytes] at hread
  exact Option.some.inj hread

theorem word_injective : Function.Injective word := by
  intro first second hsame
  have hread := congrArg read? hsame
  rw [read?_word, read?_word] at hread
  simp only [Option.some.injEq, List.cons.injEq, and_true] at hread
  rw [← joinBytes_highByte_lowByte first, hread.1, hread.2, joinBytes_highByte_lowByte]

end Hexadecimal

/-- The two texts of a trace together spell its selecting bytes and then its operand bytes. -/
theorem Trace.read_texts (trace : Trace) :
    Hexadecimal.read? (trace.opcodeText ++ trace.operandText) =
      some (trace.opcode ++ trace.operands) := by
  have hend := Hexadecimal.read?_bytes trace.operands
  rw [Hexadecimal.read?] at hend
  rw [Hexadecimal.read?, String.toList_append, opcodeText, operandText,
    Hexadecimal.readDigits?_bytes_append, hend]
  rfl

end Z80
