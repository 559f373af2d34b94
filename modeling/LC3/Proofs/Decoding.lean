import LC3.Instruction
import LC3.Instruction.Listing
import LC3.Machine.Step
import LC3.Proofs.Fields

/-!
# Words as instructions

The disassembler and the machine each take the fields that they need out of a word. Both can be told
from the instruction that the word decodes to: the text of the word is the text of the instruction,
and executing the word performs the instruction. So the two look at the same bits. Decoding an
encoded instruction gives it back.
-/

namespace LC3

theorem Register.ofField_eq (w : Word) (start : Nat) : ofField w start = ⟨w.field start 3⟩ :=
  congrArg Register.mk (w.field_unsignedField (by decide))

theorem TrapRoutine.ofWord?_setWidth (v : BitVec 8) : ofWord? (v.setWidth 16) = ofVector? v := by
  have small : (v.setWidth 16).toNat < 256 := by
    rw [BitVec.toNat_setWidth]
    omega
  rw [ofWord?, if_pos small, BitVec.setWidth_setWidth_of_le v (by decide), BitVec.setWidth_eq]

namespace Source

/-- The highest of the six bits selects the immediate form. -/
def decode (b : BitVec 6) : Source :=
  if b.getLsbD 5 then .immediate (b.extractLsb' 0 5) else .register ⟨b.extractLsb' 0 3⟩

theorem decode_encode (x : Source) : decode x.encode = x := by
  cases x with
  | register r =>
    have flag : (0#3 ++ r.index).getLsbD 5 = false := by
      rw [BitVec.getLsbD_append, if_neg (by decide)]
      rfl
    simp only [encode, decode, flag, BitVec.extractLsb'_append_eq_right, Bool.false_eq_true,
      if_false]
  | immediate v =>
    have flag : (1#1 ++ v).getLsbD 5 = true := by
      rw [BitVec.getLsbD_append, if_neg (by decide)]
      rfl
    simp only [encode, decode, flag, BitVec.extractLsb'_append_eq_right, if_true]

def text (mode : LiteralMode) : Source → String
  | .register r => r.name
  | .immediate v => mode.signed (v.signExtend 16)

/-- Bit 5 of a word selects the immediate form. -/
theorem decode_field (w : Word) :
    decode (w.field 0 6) =
      if w.getLsbD 5 then .immediate (w.field 0 5) else .register ⟨w.field 0 3⟩ := by
  have bit : (w.field 0 6).getLsbD 5 = w.getLsbD 5 := by simp [Word.field]
  rw [decode, bit, w.extractLsb'_field (by decide), w.extractLsb'_field (by decide)]

theorem text_decode (w : Word) (mode : LiteralMode) :
    (decode (w.field 0 6)).text mode =
      if w.unsignedField 5 1 = 1 then mode.signed (w.signedField 0 5)
      else (Register.ofField w 0).name := by
  rw [decode_field, Word.unsignedField_single]
  cases w.getLsbD 5 with
  | false => simp [text, Register.ofField_eq]
  | true =>
    have value := Word.signedField_eq_signExtend (n := 5) (by decide) (by decide) w 0
    simp [text, value]

end Source

namespace Instruction

/-- Reads every word; unused bits are ignored. -/
def decode (w : Word) : Instruction :=
  let upper : Register := ⟨w.field 9 3⟩
  let lower : Register := ⟨w.field 6 3⟩
  match Opcode.ofWord w with
  | .br => .br (Condition.ofBits (w.field 9 3)) (w.field 0 9)
  | .add => .add upper lower (Source.decode (w.field 0 6))
  | .and => .and upper lower (Source.decode (w.field 0 6))
  | .not => .not upper lower
  | .ld => .ld upper (w.field 0 9)
  | .ldi => .ldi upper (w.field 0 9)
  | .ldr => .ldr upper lower (w.field 0 6)
  | .lea => .lea upper (w.field 0 9)
  | .st => .st upper (w.field 0 9)
  | .sti => .sti upper (w.field 0 9)
  | .str => .str upper lower (w.field 0 6)
  | .jmp => .jmp lower
  | .jsr => if w.getLsbD 11 then .jsr (w.field 0 11) else .jsrr lower
  | .trap => .trap (w.field 0 8)
  | .rti => .rti
  | .reserved => .reserved

def text (mode : LiteralMode) : Instruction → String
  | .br c o => if c.isEmpty then "NOP" else fields c.mnemonic [mode.signed (o.signExtend 16)]
  | .add d s x => fields "ADD" [d.name, s.name, x.text mode]
  | .and d s x => fields "AND" [d.name, s.name, x.text mode]
  | .not d s => fields "NOT" [d.name, s.name]
  | .ld d o => fields "LD" [d.name, mode.signed (o.signExtend 16)]
  | .ldi d o => fields "LDI" [d.name, mode.signed (o.signExtend 16)]
  | .ldr d b o => fields "LDR" [d.name, b.name, mode.signed (o.signExtend 16)]
  | .lea d o => fields "LEA" [d.name, mode.signed (o.signExtend 16)]
  | .st s o => fields "ST" [s.name, mode.signed (o.signExtend 16)]
  | .sti s o => fields "STI" [s.name, mode.signed (o.signExtend 16)]
  | .str s b o => fields "STR" [s.name, b.name, mode.signed (o.signExtend 16)]
  | .jmp b => if b = .r7 then "RET" else fields "JMP" [b.name]
  | .jsr o => fields "JSR" [mode.signed (o.signExtend 16)]
  | .jsrr b => fields "JSRR" [b.name]
  | .trap v =>
    match TrapRoutine.ofVector? v with
    | some t => t.mnemonic
    | none => fields "TRAP" [mode.unsigned (v.setWidth 16)]
  | .rti => "RTI"
  | .reserved => "RES"

theorem encode_eq_append (i : Instruction) : i.encode = i.opcode.code ++ i.operandBits := by
  apply BitVec.eq_of_getLsbD_eq
  intro k hk
  rw [encode, Opcode.toWord, BitVec.getLsbD_or, BitVec.getLsbD_append, BitVec.getLsbD_append,
    BitVec.getLsbD_setWidth]
  by_cases low : k < 12
  · simp [low, hk]
  · simp [low, BitVec.getLsbD_of_ge i.operandBits k (by omega)]

theorem ofWord_encode (i : Instruction) : Opcode.ofWord i.encode = i.opcode := by
  rw [encode_eq_append, Opcode.ofWord, Word.field, BitVec.extractLsb'_append_eq_left,
    Opcode.ofCode_code]

/-- A field below the opcode is a field of the operand bits. -/
theorem field_encode (i : Instruction) {start n : Nat} (h : start + n ≤ 12) :
    i.encode.field start n = i.operandBits.extractLsb' start n := by
  rw [encode_eq_append]
  exact BitVec.extractLsb'_append_eq_of_add_le h

theorem getLsbD_encode (i : Instruction) {k : Nat} (h : k < 12) :
    i.encode.getLsbD k = i.operandBits.getLsbD k := by
  rw [encode_eq_append, BitVec.getLsbD_append, if_pos h]

/-- Twelve bits of a register and a field. -/
theorem extract_two (a : BitVec 3) (b : BitVec 9) :
    (a ++ b).extractLsb' 9 3 = a ∧ (a ++ b).extractLsb' 0 9 = b :=
  ⟨BitVec.extractLsb'_append_eq_left, BitVec.extractLsb'_append_eq_right⟩

/-- Twelve bits of two registers and a field. -/
theorem extract_three (a b : BitVec 3) (c : BitVec 6) :
    (a ++ b ++ c).extractLsb' 9 3 = a ∧ (a ++ b ++ c).extractLsb' 6 3 = b ∧
      (a ++ b ++ c).extractLsb' 0 6 = c := by
  refine ⟨?_, ?_, BitVec.extractLsb'_append_eq_right⟩
  · rw [BitVec.extractLsb'_append_eq_of_le (by decide)]
    exact BitVec.extractLsb'_append_eq_left
  · rw [BitVec.extractLsb'_append_eq_of_le (by decide)]
    exact BitVec.extractLsb'_append_eq_right

theorem decode_encode (i : Instruction) : decode i.encode = i := by
  have opcode_eq := i.ofWord_encode
  have upper := i.field_encode (show 9 + 3 ≤ 12 by decide)
  have middle := i.field_encode (show 6 + 3 ≤ 12 by decide)
  have low6 := i.field_encode (show 0 + 6 ≤ 12 by decide)
  have low8 := i.field_encode (show 0 + 8 ≤ 12 by decide)
  have low9 := i.field_encode (show 0 + 9 ≤ 12 by decide)
  have low11 := i.field_encode (show 0 + 11 ≤ 12 by decide)
  have flag := i.getLsbD_encode (show 11 < 12 by decide)
  unfold decode
  rw [opcode_eq]
  cases i with
  | rti => rfl
  | reserved => rfl
  | br c o =>
    have bits := extract_two c.bits o
    simp only [opcode, upper, low9, operandBits, bits, Condition.ofBits_bits]
  | ld r o | ldi r o | lea r o | st r o | sti r o =>
    have bits := extract_two r.index o
    simp only [opcode, upper, low9, operandBits, bits]
  | add d s x | and d s x =>
    have bits := extract_three d.index s.index x.encode
    simp only [opcode, upper, middle, low6, operandBits, bits, Source.decode_encode]
  | ldr d b o | str d b o =>
    have bits := extract_three d.index b.index o
    simp only [opcode, upper, middle, low6, operandBits, bits]
  | not d s =>
    have bits := extract_three d.index s.index 0b111111#6
    simp only [opcode, upper, middle, operandBits, bits]
  | jmp b =>
    have bits := extract_three 0#3 b.index 0#6
    simp only [opcode, middle, operandBits, bits]
  | jsrr b =>
    have bits := extract_three 0#3 b.index 0#6
    have clear : (0#3 ++ b.index ++ 0#6).getLsbD 11 = false := by
      rw [BitVec.getLsbD_append, if_neg (by decide), BitVec.getLsbD_append, if_neg (by decide)]
      rfl
    simp only [opcode, middle, flag, operandBits, bits, clear, Bool.false_eq_true, if_false]
  | jsr o =>
    have set : (1#1 ++ o).getLsbD 11 = true := by
      rw [BitVec.getLsbD_append, if_neg (by decide)]
      rfl
    have bits : (1#1 ++ o).extractLsb' 0 11 = o := BitVec.extractLsb'_append_eq_right
    simp only [opcode, low11, flag, operandBits, bits, set, if_true]
  | trap v =>
    have bits : (0#4 ++ v).extractLsb' 0 8 = v := BitVec.extractLsb'_append_eq_right
    simp only [opcode, low8, operandBits, bits]

end Instruction

/-- The disassembler writes the instruction that the word decodes to. -/
theorem disassemble_eq_text (w : Word) (mode : LiteralMode) :
    disassemble w mode = (Instruction.decode w).text mode := by
  have register := Register.ofField_eq w
  have offset6 := Word.signedField_eq_signExtend (n := 6) (by decide) (by decide) w 0
  have offset9 := Word.signedField_eq_signExtend (n := 9) (by decide) (by decide) w 0
  have offset11 := Word.signedField_eq_signExtend (n := 11) (by decide) (by decide) w 0
  have second := Source.text_decode w mode
  rw [disassemble, Instruction.decode]
  cases Opcode.ofWord w with
  | add | and => simp only [Instruction.text, register, second]
  | jsr =>
    simp only [Word.unsignedField_single]
    cases w.getLsbD 11 <;> simp [Instruction.text, register, offset11]
  | trap =>
    have routine := TrapRoutine.ofWord?_setWidth (w.field 0 8)
    cases named : TrapRoutine.ofVector? (w.field 0 8) <;>
      simp only [Instruction.text, Word.unsignedField, routine, named]
  | _ => simp only [Instruction.text, register, offset6, offset9]

namespace Machine

/-- The address an offset reaches from the current program counter. -/
def target {n : Nat} (m : Machine) (offset : BitVec n) : Word := m.pc + offset.signExtend 16

/-- The address an offset reaches from a base register. -/
def baseTarget (m : Machine) (base : Register) (offset : BitVec 6) : Word :=
  m.register base + offset.signExtend 16

def sourceValue (m : Machine) : Source → Word
  | .register r => m.register r
  | .immediate v => v.signExtend 16

/-- Performs an instruction; the program counter is past it already. The link register is written
before a base register is read. -/
def perform (m : Machine) (word : Word) : Instruction → Result
  | .br c o => (if c.accepts m.flag then { m with pc := m.target o } else m).completed .executed
  | .add d s x => (m.setResult d (m.register s + m.sourceValue x)).completed .executed
  | .and d s x => (m.setResult d (m.register s &&& m.sourceValue x)).completed .executed
  | .not d s => (m.setResult d (~~~m.register s)).completed .executed
  | .ld d o =>
    let (w, m) := m.load (m.target o)
    (m.setResult d w).completed .executed
  | .ldi d o =>
    let (p, m) := m.load (m.target o)
    let (w, m) := m.load p
    (m.setResult d w).completed .executed
  | .ldr d b o =>
    let (w, m) := m.load (m.baseTarget b o)
    (m.setResult d w).completed .executed
  | .lea d o => (m.setResult d (m.target o)).completed .executed
  | .st s o => (m.write (m.target o) (m.register s)).completed .executed
  | .sti s o =>
    let (p, m) := m.load (m.target o)
    (m.write p (m.register s)).completed .executed
  | .str s b o => (m.write (m.baseTarget b o) (m.register s)).completed .executed
  | .jmp b => { m with pc := m.register b }.completed .executed
  | .jsr o => { m.setRegister .r7 m.pc with pc := m.target o }.completed .executed
  | .jsrr b =>
    let m := m.setRegister .r7 m.pc
    { m with pc := m.register b }.completed .executed
  | .trap v =>
    match TrapRoutine.ofVector? v with
    | some t => m.serve t
    | none => (m.callVector (v.setWidth 16)).completed .executed
  | .rti => (.error (.badInstruction (m.pc - 1) word), m)
  | .reserved => (.error (.badInstruction (m.pc - 1) word), m)

theorem load_of_ne {m : Machine} {a : Word} (quiet : a ≠ keyboardStatus) :
    m.load a = (m.peek a, m) := by
  rw [load, if_neg quiet]

theorem pollKeyboard_eq (m : Machine) :
    m.pollKeyboard =
      { m with memory := m.pollKeyboard.memory, input := m.pollKeyboard.input } := by
  rw [pollKeyboard]
  split <;> rfl

/-- A load changes no more than the keyboard cells and the input queue. -/
theorem frame_load (m : Machine) (a : Word) :
    ∃ memory input, (m.load a).2 = { m with memory := memory, input := input } := by
  rw [load]
  split
  · exact ⟨_, _, m.pollKeyboard_eq⟩
  · exact ⟨m.memory, m.input, rfl⟩

theorem register_load (m : Machine) (a : Word) (r : Register) :
    (m.load a).2.register r = m.register r := by
  obtain ⟨memory, input, frame⟩ := m.frame_load a
  rw [frame]
  rfl

theorem sourceValue_decode (m : Machine) (w : Word) :
    m.sourceValue (Source.decode (w.field 0 6)) = m.secondOperand w := by
  rw [Source.decode_field, secondOperand, Word.unsignedField_single]
  cases w.getLsbD 5 with
  | false => simp [sourceValue, fieldRegister, Register.ofField_eq]
  | true =>
    have value := Word.signedField_eq_signExtend (n := 5) (by decide) (by decide) w 0
    simp [sourceValue, value]

/-- The machine performs the instruction that the word decodes to. -/
theorem execute_eq_perform (m : Machine) (w : Word) : m.execute w = m.perform w (.decode w) := by
  have upper := Register.ofField_eq w 9
  have lower := Register.ofField_eq w 6
  have offset6 := Word.signedField_eq_signExtend (n := 6) (by decide) (by decide) w 0
  have offset9 := Word.signedField_eq_signExtend (n := 9) (by decide) (by decide) w 0
  have offset11 := Word.signedField_eq_signExtend (n := 11) (by decide) (by decide) w 0
  have second := m.sourceValue_decode w
  rw [execute, Instruction.decode]
  cases Opcode.ofWord w with
  | sti =>
    have kept := register_load m (m.target (w.field 0 9)) ⟨w.field 9 3⟩
    simp only [perform, fieldRegister, offsetAddress, target, upper, offset9] at kept ⊢
    rw [kept]
  | jsr =>
    simp only [Word.unsignedField_single]
    cases w.getLsbD 11 <;>
      simp [perform, fieldRegister, offsetAddress, target, lower, offset11, setRegister]
  | trap =>
    have routine := TrapRoutine.ofWord?_setWidth (w.field 0 8)
    cases named : TrapRoutine.ofVector? (w.field 0 8) <;>
      simp only [perform, Word.unsignedField, routine, named]
  | _ =>
    simp only [perform, fieldRegister, offsetAddress, baseAddress, target, baseTarget, upper,
      lower, offset6, offset9, second]

theorem fetch_of_ne {m : Machine} (quiet : m.pc ≠ keyboardStatus) :
    m.fetch = (m.peek m.pc, { m with pc := m.pc + 1 }) := by
  rw [fetch, load_of_ne quiet]

theorem step_of_stopped {m : Machine} (stopped : m.running = false) :
    m.step = (.error .notRunning, m) := by
  rw [step, stopped, if_neg Bool.false_ne_true]

theorem step_eq_perform_fetch {m : Machine} (running : m.running = true) :
    m.step = m.fetch.2.perform m.fetch.1 (.decode m.fetch.1) := by
  rw [step, if_pos running]
  exact execute_eq_perform ..

theorem step_of_running {m : Machine} (running : m.running = true)
    (quiet : m.pc ≠ keyboardStatus) :
    m.step = { m with pc := m.pc + 1 }.perform (m.peek m.pc) (.decode (m.peek m.pc)) := by
  rw [step_eq_perform_fetch running, fetch_of_ne quiet]

theorem step_of_encode {m : Machine} {i : Instruction} (running : m.running = true)
    (quiet : m.pc ≠ keyboardStatus) (fetched : m.peek m.pc = i.encode) :
    m.step = { m with pc := m.pc + 1 }.perform i.encode i := by
  rw [step_of_running running quiet, fetched, Instruction.decode_encode]

end Machine

end LC3
