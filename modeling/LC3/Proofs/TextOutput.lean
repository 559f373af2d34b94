import LC3.Proofs.Escapes
import LC3.Proofs.LabelAddresses
import LC3.Proofs.Runs

/-!
# Text in the source is text on the output

A program with a string literal that loads the address of the string and calls the string trap puts
out the bytes of the string, whatever characters the string has and wherever the program is laid
out. The string only has to fit the output queue and be without the zero character.
-/

namespace LC3

namespace StringLiteral

/-- Quotes, backslashes and line breaks are escaped, and nothing else is. -/
def minimalEscape (c : Char) : List Char :=
  if c = '"' ∨ c = '\\' then ['\\', c]
  else if c = '\n' then ['\\', 'n']
  else if c = '\r' then ['\\', 'r']
  else [c]

theorem writes_minimalEscape (c : Char) : Writes (minimalEscape c) c := by
  unfold minimalEscape
  split
  · next special => rcases special with rfl | rfl <;> exact writes_escape rfl
  · next plain =>
    split
    · next feed => exact feed ▸ writes_escape rfl
    · split
      · next back => exact back ▸ writes_escape rfl
      · exact writes_self (plain ∘ .inl) (plain ∘ .inr)

theorem unbroken_minimalEscape (c : Char) :
    '\n' ∉ minimalEscape c ∧ '\r' ∉ minimalEscape c := by
  unfold minimalEscape
  split
  · next special => rcases special with rfl | rfl <;> decide
  · split
    · decide
    · next feed =>
      split
      · decide
      · next back => simp [Ne.symm feed, Ne.symm back]

theorem readsAs_minimalEscape (s : String) :
    ReadsAs (literal minimalEscape s.toList) (.string s) := by
  simpa using readsAs_literal s.toList (fun c _ => writes_minimalEscape c)
    fun c _ => unbroken_minimalEscape c

end StringLiteral

def textProgram (digits : List Char) (s : String) : String :=
  "\n".intercalate [".ORIG x" ++ String.ofList digits, "LEA R0, MSG", "PUTS", "HALT",
    "MSG .STRINGZ " ++ String.ofList (StringLiteral.literal StringLiteral.minimalEscape s.toList)]

def textStatements (origin : Word) (s : String) : List Statement :=
  [{ opcode := some ".ORIG", operands := [.number origin] },
    { opcode := some "LEA", operands := [.register .r0, .label "MSG"] },
    { opcode := some "PUTS" }, { opcode := some "HALT" },
    { label := some "MSG", opcode := some ".STRINGZ", operands := [.string s] }]

def textCode : List Word :=
  [(Instruction.loadAddress .r0 2).encode, (Instruction.routine .puts).encode,
    (Instruction.routine .halt).encode]

def textMachine (origin : Word) (s : String) : Machine :=
  (Machine.new.moveOrigin origin).writeAll origin textCode |>.writeAll (origin + 3)
    (textWords s ++ [0])

variable {digits : List Char} {origin : Word} {s : String}

theorem isName_msg : IsName "MSG" := ⟨.of_all rfl rfl, by decide, by decide, rfl, rfl⟩

theorem isLabel_msg : IsLabel "MSG" := ⟨.of_all rfl rfl, by decide, rfl⟩

open Source in
/-- The program is read as its statements. -/
theorem exists_lines_of_textProgram (numeral : NumberToken.IsHexadecimal digits origin)
    (s : String) :
    ∃ lines, Source.parse (textProgram digits s) = .ok lines ∧
      lines.map Line.toStatement = textStatements origin s := by
  have address : ReadsAs ('x' :: digits) (.number origin) :=
    (LiteralMode.Literal.hexadecimal numeral).readsAs
  have set : IsLine (".ORIG x" ++ String.ofList digits).toList
      { opcode := some ".ORIG", operands := [.number origin] } := by
    simpa [labelText, operandsText] using isLine_operation none (k := ".ORIG")
      [('x' :: digits, .number origin)] (by simp) rfl (by decide) (by simpa using address)
  have load : IsLine "LEA R0, MSG".toList
      { opcode := some "LEA", operands := [.register .r0, .label "MSG"] } := by
    have operands : ∀ p ∈ [("R0".toList, Operand.register .r0), ("MSG".toList, .label "MSG")],
        ReadsAs p.1 p.2 := by
      rw [List.forall_mem_cons, List.forall_mem_singleton]
      exact ⟨(Register.readFrom_name .r0).readsAs, isName_msg.readsAs⟩
    exact isLine_operation none (k := "LEA") _ (by simp) rfl (by decide) operands
  have string : IsLine ("MSG .STRINGZ " ++
      String.ofList (StringLiteral.literal StringLiteral.minimalEscape s.toList)).toList
      { label := some "MSG", opcode := some ".STRINGZ", operands := [.string s] } := by
    simpa [labelText, operandsText] using isLine_operation (some "MSG") (k := ".STRINGZ")
      [(_, .string s)] (fun _ same => Option.mem_some.mp same ▸ isLabel_msg) rfl
      (by decide) (by simpa using StringLiteral.readsAs_minimalEscape s)
  refine parse_intercalate [(_, _), (_, _), (_, _), (_, _), (_, _)] ?_
  simp only [List.forall_mem_cons]
  exact ⟨set, load, isLine_keyword (k := "PUTS") rfl (by decide),
    isLine_keyword (k := "HALT") rfl (by decide), string, by simp⟩

/-- Lines that say this are assembled to this machine. -/
theorem assemble_of_textStatements {lines : List Line}
    (denotes : lines.map Line.toStatement = textStatements origin s) :
    Machine.new.assemble lines = (.ok [("MSG", origin + 1 + 1 + 1)], textMachine origin s) := by
  obtain ⟨⟨_, n₁, p₁⟩, _, rfl, rfl, later₁⟩ := List.map_eq_cons_iff.mp denotes
  obtain ⟨⟨_, n₂, p₂⟩, _, rfl, rfl, later₂⟩ := List.map_eq_cons_iff.mp later₁
  obtain ⟨⟨_, n₃, p₃⟩, _, rfl, rfl, later₃⟩ := List.map_eq_cons_iff.mp later₂
  obtain ⟨⟨_, n₄, p₄⟩, _, rfl, rfl, later₄⟩ := List.map_eq_cons_iff.mp later₃
  obtain ⟨⟨_, n₅, p₅⟩, _, rfl, rfl, later₅⟩ := List.map_eq_cons_iff.mp later₄
  cases List.map_eq_nil_iff.mp later₅
  rw [Machine.assemble_eq_ok_iff]
  constructor
  · rfl
  · have third : origin + 3 = origin + 1 + 1 + 1 := by bv_omega
    have distance : origin + 1 + 1 + 1 - (origin + 1) = 2 := by bv_omega
    refine (Machine.emit_of_origin origin rfl).trans ?_
    refine (Machine.emit_of_words [(Instruction.loadAddress .r0 2).encode] ?_).trans ?_
    · rw [← distance]
      rfl
    refine (Machine.emit_of_words [(Instruction.routine .puts).encode] rfl).trans ?_
    refine (Machine.emit_of_words [(Instruction.routine .halt).encode] rfl).trans ?_
    refine (Machine.emit_of_words (textWords s ++ [0]) rfl).trans ?_
    rw [textMachine, third]
    rfl

namespace Machine

theorem step_puts {m : Machine} {text : List Word} (running : m.running = true)
    (quiet : m.pc ≠ keyboardStatus) (fetched : m.peek m.pc = (Instruction.routine .puts).encode)
    (string : m.memory.textAt (m.register .r0) m.textLimit = text) :
    m.step = { m with pc := m.pc + 1 }.writeText text := by
  rw [step_of_encode running quiet fetched, ← string]
  rfl

/-- A program that loads the address behind it, calls the string trap and halts puts out the string
that is there, if the output has room for it. -/
theorem run_of_textCode {m : Machine} {text : List Word}
    (load : m.peek m.pc = (Instruction.loadAddress .r0 2).encode)
    (put : m.peek (m.pc + 1) = (Instruction.routine .puts).encode)
    (halt : m.peek (m.pc + 1 + 1) = (Instruction.routine .halt).encode)
    (quiet₁ : m.pc ≠ keyboardStatus) (quiet₂ : m.pc + 1 ≠ keyboardStatus)
    (quiet₃ : m.pc + 1 + 1 ≠ keyboardStatus)
    (string : m.memory.textAt (m.pc + 3) m.textLimit = text)
    (room : text.length ≤ m.output.free) :
    (m.run none).1 = .ok .halted ∧ (m.run none).2.executed = m.executed + 3 ∧
      (m.run none).2.output.items = m.output.items ++ text := by
  -- The address of the string is loaded.
  let m₁ := (({ m.start with pc := m.pc + 1 }.setResult .r0 (m.pc + 3)).completed .executed).2
  have step₁ : m.start.step = (.ok .executed, m₁) := by
    have address : m.pc + 1 + ((2 : Word).narrow 9).signExtend 16 = m.pc + 3 := by
      rw [show ((2 : Word).narrow 9).signExtend 16 = 2 by decide]
      bv_omega
    simp only [m₁, ← address]
    exact step_of_encode (m := m.start) rfl quiet₁ load
  -- The string is written, for there is room.
  have base : m₁.register .r0 = m.pc + 3 := (Registers.get_set ..).trans (if_pos rfl)
  obtain ⟨output, items, -, written⟩ := writeText_of_room
    (m := { m₁ with pc := m.pc + 1 + 1 }) room
  let m₂ := ({ m₁ with pc := m.pc + 1 + 1, output := output }.completed .executed).2
  have step₂ : m₁.step = (.ok .executed, m₂) :=
    (step_puts (m := m₁) rfl quiet₂ put (base ▸ string)).trans written
  have step₃ : m₂.step = ({ m₂ with pc := m.pc + 1 + 1 + 1 } : Machine).stop.completed .halted :=
    step_of_encode (m := m₂) rfl quiet₃ halt
  obtain ⟨n, longest⟩ : ∃ n, longestRun = n + 1 + 1 + 1 := ⟨UInt64.size - 3, rfl⟩
  have ran : m.run none = m₂.step := by
    rw [run, Option.getD_none, longest, runFor_of_step step₁, runFor_of_step step₂, runFor, step₃]
    rfl
  rw [ran, step₃]
  exact ⟨rfl, rfl, items⟩

variable (short : (textWords s).length ≤ 64)
include short

/-- The instructions are where the program was laid out, and the string does not reach them. -/
theorem peek_textMachine :
    (textMachine origin s).peek origin = (Instruction.loadAddress .r0 2).encode ∧
      (textMachine origin s).peek (origin + 1) = (Instruction.routine .puts).encode ∧
      (textMachine origin s).peek (origin + 1 + 1) = (Instruction.routine .halt).encode := by
  have cell : ∀ (a : Word) (i : Nat) (inside : i < textCode.length), (a - origin).toNat = i →
      (textMachine origin s).peek a = textCode[i] := by
    rintro a _ inside rfl
    have few : (a - origin).toNat < 3 := inside
    have beyond : (a - (origin + 3)).toNat = 65533 + (a - origin).toNat := by bv_omega
    rw [textMachine, peek_writeAll _ _ _ (by simp; omega), beyond,
      List.getElem?_eq_none (by simp; omega), Option.getD_none, peek_writeAll _ _ _ (by decide),
      List.getElem?_eq_getElem inside, Option.getD_some]
  exact ⟨cell _ 0 (by decide) (by bv_omega), cell _ 1 (by decide) (by bv_omega),
    cell _ 2 (by decide) (by bv_omega)⟩

theorem textAt_textMachine (clean : '\x00' ∉ s.toList) :
    (textMachine origin s).memory.textAt (origin + 3) 65 = textWords s :=
  Memory.textAt_of_isString
    (Memory.isString_writeAll _ _ (fun _ => ne_zero_of_mem_textWords clean) (by omega)) (by omega)

end Machine

/-- The program for a text is accepted and puts the text out, byte by byte, in three instructions.
None of them may be at the keyboard status cell, where its fetch would poll the keyboard. -/
theorem text_is_put_out (numeral : NumberToken.IsHexadecimal digits origin)
    (quiet : origin ∉ [0xFDFE, 0xFDFF, 0xFE00]) (clean : '\x00' ∉ s.toList)
    (short : byteLength s.toList ≤ 64) :
    ∃ m labels, assemble (textProgram digits s) = .ok (m, labels) ∧
      (m.run none).1 = .ok .halted ∧ (m.run none).2.executed = 3 ∧
      (m.run none).2.output.items = textWords s := by
  obtain ⟨lines, read, denotes⟩ := exists_lines_of_textProgram numeral s
  have assembled : assemble (textProgram digits s) =
      .ok (textMachine origin s, [("MSG", origin + 1 + 1 + 1)]) := by
    simp only [assemble, read, assemble_of_textStatements denotes]
  rw [← length_textWords] at short
  simp only [List.mem_cons, List.not_mem_nil, or_false, not_or] at quiet
  obtain ⟨below₂, below₁, here⟩ := quiet
  have second : origin + 1 ≠ Machine.keyboardStatus := by
    rw [Machine.keyboardStatus]
    bv_omega
  have third : origin + 1 + 1 ≠ Machine.keyboardStatus := by
    rw [Machine.keyboardStatus]
    bv_omega
  obtain ⟨load, put, halt⟩ := @Machine.peek_textMachine origin _ short
  exact ⟨_, _, assembled, Machine.run_of_textCode (m := textMachine origin s) load put halt here
    second third (Machine.textAt_textMachine short clean) short⟩

/-- The string begins again at the first address, and has a character of two bytes and escapes. -/
theorem wrapped_text_is_put_out : ∃ m labels,
    assemble (textProgram ['f', 'F', 'f', 'd'] "\u00e9\"\\\n") = .ok (m, labels) ∧
      (m.run none).1 = .ok .halted ∧ (m.run none).2.executed = 3 ∧
      (m.run none).2.output.items = [0xC3, 0xA9, 0x22, 0x5C, 0x0A] := by
  obtain ⟨m, labels, assembled, halted, count, output⟩ :=
    @text_is_put_out ['f', 'F', 'f', 'd'] 0xFFFD "\u00e9\"\\\n" ⟨by decide, by decide⟩ (by decide)
      (by decide) (by decide)
  exact ⟨m, labels, assembled, halted, count, output⟩

end LC3
