import LC3.Proofs.Decoding
import LC3.Proofs.LineContents
import LC3.Proofs.Literals

/-!
# Listings read back

What a listing shows is an operation: a mnemonic and operands that are registers and numbers. The
text is read as its operation in either mode, and the operation stands for the instruction again.
Only the reserved instructions and the branch on no sign have a text that is no operation.
-/

namespace LC3

/-- Whether the assembler has an operation for the instruction. -/
def Instruction.isAssembled : Instruction → Bool
  | .br c _ => !c.isEmpty
  | .rti | .reserved => false
  | _ => true

def Source.operand : Source → Operand
  | .register r => .register r
  | .immediate v => .number (v.signExtend 16)

def Instruction.operation : Instruction → String × List Operand
  | .br c o => (c.mnemonic, [.number (o.signExtend 16)])
  | .add d s x => ("ADD", [.register d, .register s, x.operand])
  | .and d s x => ("AND", [.register d, .register s, x.operand])
  | .not d s => ("NOT", [.register d, .register s])
  | .ld d o => ("LD", [.register d, .number (o.signExtend 16)])
  | .ldi d o => ("LDI", [.register d, .number (o.signExtend 16)])
  | .ldr d b o => ("LDR", [.register d, .register b, .number (o.signExtend 16)])
  | .lea d o => ("LEA", [.register d, .number (o.signExtend 16)])
  | .st s o => ("ST", [.register s, .number (o.signExtend 16)])
  | .sti s o => ("STI", [.register s, .number (o.signExtend 16)])
  | .str s b o => ("STR", [.register s, .register b, .number (o.signExtend 16)])
  | .jmp b => if b = .r7 then ("RET", []) else ("JMP", [.register b])
  | .jsr o => ("JSR", [.number (o.signExtend 16)])
  | .jsrr b => ("JSRR", [.register b])
  | .trap v =>
    match TrapRoutine.ofVector? v with
    | some t => (t.mnemonic, [])
    | none => ("TRAP", [.number (v.setWidth 16)])
  | .rti => ("RTI", [])
  | .reserved => ("RES", [])

def Statement.ofOperation (operation : String × List Operand) : Statement :=
  { opcode := some operation.1, operands := operation.2 }

namespace LiteralMode

theorem readFrom_signed (mode : LiteralMode) (w : Word) :
    (Operand.number w).ReadFrom (mode.signed w) := (mode.literal_signed w).readFrom

theorem readFrom_unsigned (mode : LiteralMode) (w : Word) :
    (Operand.number w).ReadFrom (mode.unsigned w) := (mode.literal_unsigned w).readFrom

end LiteralMode

theorem Source.readFrom_text (x : Source) (mode : LiteralMode) :
    x.operand.ReadFrom (x.text mode) := by
  cases x with
  | register r => exact r.readFrom_name
  | immediate v => exact mode.readFrom_signed _

namespace Instruction

/-- A mnemonic with operand texts is a line that says what the texts are read as. -/
theorem isLine_fields (k : String) (shown : List (String × Operand))
    (known : Keyword.isKeyword k = true) (going : k ≠ Keyword.finish) (some : shown ≠ [])
    (readable : ∀ p ∈ shown, p.2.ReadFrom p.1) :
    Source.IsLine (fields k (shown.map Prod.fst)).toList
      (.ofOperation (k, shown.map Prod.snd)) := by
  have readable' : ∀ p ∈ shown.map fun p => (p.1.toList, p.2), ReadsAs p.1 p.2 := by
    intro p member
    obtain ⟨q, known, rfl⟩ := List.mem_map.mp member
    exact (readable q known).readsAs
  have line := Source.isLine_operation none _ (by simp) known going readable'
  have written : (fields k (shown.map Prod.fst)).toList =
      k.toList ++ operandsText (shown.map fun p => p.1.toList) := by
    obtain ⟨p, others, rfl⟩ := List.exists_cons_of_ne_nil some
    simp [fields, operandsText, String.toList_intercalate, Function.comp_def]
  simp only [List.map_map] at line
  rw [written]
  exact line

theorem isKeyword_mnemonic {c : Condition} (nonempty : c.isEmpty = false) :
    Keyword.isKeyword c.mnemonic = true ∧ c.mnemonic ≠ Keyword.finish := by
  obtain ⟨n, z, p⟩ := c
  cases n <;> cases z <;> cases p <;> revert nonempty <;> decide

theorem isLine_routine (t : TrapRoutine) :
    Source.IsLine t.mnemonic.toList (.ofOperation (t.mnemonic, [])) := by
  cases t <;> exact Source.isLine_keyword (by decide) (by decide)

section

variable {k : String} (known : Keyword.isKeyword k = true) (going : k ≠ Keyword.finish)
include known going

theorem isLine_single {x : Operand} {text : String} (readFrom : x.ReadFrom text) :
    Source.IsLine (fields k [text]).toList (.ofOperation (k, [x])) := by
  refine isLine_fields k [(text, x)] known going (List.cons_ne_nil _ _) ?_
  simpa using readFrom

theorem isLine_registerValue (r : Register) (mode : LiteralMode) (w : Word) :
    Source.IsLine (fields k [r.name, mode.signed w]).toList
      (.ofOperation (k, [.register r, .number w])) := by
  refine isLine_fields k [(r.name, .register r), (mode.signed w, .number w)] known going
    (List.cons_ne_nil _ _) ?_
  simp [r.readFrom_name, mode.readFrom_signed]

theorem isLine_registers (r s : Register) {x : Operand} {text : String}
    (readFrom : x.ReadFrom text) :
    Source.IsLine (fields k [r.name, s.name, text]).toList
      (.ofOperation (k, [.register r, .register s, x])) := by
  refine isLine_fields k [(r.name, .register r), (s.name, .register s), (text, x)] known going
    (List.cons_ne_nil _ _) ?_
  simp [r.readFrom_name, s.readFrom_name, readFrom]

end

/-- The text of an instruction is a line that says its operation. -/
theorem isLine_text {i : Instruction} (assembled : i.isAssembled = true) (mode : LiteralMode) :
    Source.IsLine (i.text mode).toList (.ofOperation i.operation) := by
  cases i with
  | br c o =>
    have nonempty : c.isEmpty = false := by simpa [isAssembled] using assembled
    obtain ⟨known, going⟩ := isKeyword_mnemonic nonempty
    rw [text, nonempty]
    exact isLine_single known going (mode.readFrom_signed _)
  | add d s x => exact isLine_registers (by decide) (by decide) _ _ (x.readFrom_text mode)
  | and d s x => exact isLine_registers (by decide) (by decide) _ _ (x.readFrom_text mode)
  | not d s =>
    refine isLine_fields "NOT" [(d.name, .register d), (s.name, .register s)] (by decide)
      (by decide) (List.cons_ne_nil _ _) ?_
    simp [d.readFrom_name, s.readFrom_name]
  | ld d o => exact isLine_registerValue (by decide) (by decide) _ mode _
  | ldi d o => exact isLine_registerValue (by decide) (by decide) _ mode _
  | ldr d b o => exact isLine_registers (by decide) (by decide) _ _ (mode.readFrom_signed _)
  | lea d o => exact isLine_registerValue (by decide) (by decide) _ mode _
  | st s o => exact isLine_registerValue (by decide) (by decide) _ mode _
  | sti s o => exact isLine_registerValue (by decide) (by decide) _ mode _
  | str s b o => exact isLine_registers (by decide) (by decide) _ _ (mode.readFrom_signed _)
  | jmp b =>
    by_cases link : b = .r7
    · simp only [text, operation, if_pos link]
      exact Source.isLine_keyword (by decide) (by decide)
    · simp only [text, operation, if_neg link]
      exact isLine_single (by decide) (by decide) b.readFrom_name
  | jsr o => exact isLine_single (by decide) (by decide) (mode.readFrom_signed _)
  | jsrr b => exact isLine_single (by decide) (by decide) b.readFrom_name
  | trap v =>
    simp only [text, operation]
    cases TrapRoutine.ofVector? v with
    | some t => exact isLine_routine t
    | none => exact isLine_single (by decide) (by decide) (mode.readFrom_unsigned _)
  | rti => cases assembled
  | reserved => cases assembled

/-- Some form accepts the operation and makes the instruction of it, whatever the labels are. -/
def MadeOf (i : Instruction) (opcode : String) (operands : List Operand) : Prop :=
  ∃ form arguments, Form.find? opcode operands = some form ∧
    form.template.isInstruction = true ∧
    (∀ labels a, Slot.resolveAll labels a form.slots operands = .ok arguments) ∧
    form.template.contents opcode arguments = .ok (.instruction i)

section

variable {n : Nat}

theorem madeOf_value (k : String) (make : Word → Instruction) (slot : Slot) {i : Instruction}
    {w : Word} (found : Form.find? k [.number w] = some ⟨k, [slot], .oneValue make⟩)
    (same : make w = i) : i.MadeOf k [.number w] := by
  refine ⟨_, [.value w], found, rfl, fun _ _ => rfl, ?_⟩
  rw [Template.contents, same]

theorem madeOf_registerValue (k : String) (field : BitVec n → Instruction)
    (make : Register → Word → Instruction) (r : Register) (v : BitVec n)
    (found : Form.find? k [.register r, .number (v.signExtend 16)] =
      some ⟨k, [.register, .offset], .registerValue make⟩)
    (narrows : ∀ w : Word, make r w = field (w.narrow n)) (bounds : 0 < n ∧ n ≤ 16) :
    (field v).MadeOf k [.register r, .number (v.signExtend 16)] := by
  refine ⟨_, [.register r, .value (v.signExtend 16)], found, rfl, fun _ _ => rfl, ?_⟩
  rw [Template.contents, narrows, Word.narrow_signExtend bounds.1 bounds.2]

theorem madeOf_registersValue (k : String) (field : BitVec n → Instruction)
    (make : Register → Register → Word → Instruction) (slot : Slot) (r s : Register)
    (v : BitVec n)
    (found : Form.find? k [.register r, .register s, .number (v.signExtend 16)] =
      some ⟨k, [.register, .register, slot], .twoRegistersValue make⟩)
    (narrows : ∀ w : Word, make r s w = field (w.narrow n)) (bounds : 0 < n ∧ n ≤ 16) :
    (field v).MadeOf k [.register r, .register s, .number (v.signExtend 16)] := by
  refine ⟨_, [.register r, .register s, .value (v.signExtend 16)], found, rfl, fun _ _ => rfl, ?_⟩
  rw [Template.contents, narrows, Word.narrow_signExtend bounds.1 bounds.2]

end

theorem madeOf_branch {c : Condition} (nonempty : c.isEmpty = false) (o : BitVec 9) :
    (br c o).MadeOf c.mnemonic [.number (o.signExtend 16)] := by
  have named := Condition.ofMnemonic?_mnemonic nonempty
  refine ⟨⟨"BR", [.offset], .branch⟩, [.value (o.signExtend 16)], ?_, rfl, fun _ _ => rfl, ?_⟩
  · rw [Form.find?, Form.key, named]
    rfl
  · simp only [Template.contents, named, branch, nonempty, Bool.false_eq_true, if_false,
      Word.narrow_signExtend (show 0 < 9 by decide) (show 9 ≤ 16 by decide)]

theorem madeOf_routine (t : TrapRoutine) : (routine t).MadeOf t.mnemonic [] := by
  refine ⟨⟨t.mnemonic, [], .fixed (routine t)⟩, [], ?_, rfl, fun _ _ => rfl, rfl⟩
  cases t <;> rfl

theorem routine_of_ofVector? {v : BitVec 8} {t : TrapRoutine}
    (named : TrapRoutine.ofVector? v = some t) : routine t = .trap v := by
  have vector : ∀ n, v.toNat = n → v = BitVec.ofNat 8 n := by
    rintro n rfl
    rw [BitVec.ofNat_toNat, BitVec.setWidth_eq]
  rw [TrapRoutine.ofVector?] at named
  split at named <;> cases named
  all_goals exact congrArg Instruction.trap (vector _ (by assumption)).symm

/-- The operation of an instruction stands for the instruction. -/
theorem madeOf_operation {i : Instruction} (assembled : i.isAssembled = true) :
    i.MadeOf i.operation.1 i.operation.2 := by
  cases i with
  | br c o => exact madeOf_branch (by simpa [isAssembled] using assembled) o
  | add d s x =>
    cases x with
    | register r =>
      show MadeOf _ "ADD" [.register d, .register s, .register r]
      exact ⟨_, [.register d, .register s, .register r], rfl, rfl, fun _ _ => rfl, rfl⟩
    | immediate v =>
      exact madeOf_registersValue "ADD" (.add d s <| .immediate ·) addImmediate .immediate d s v
        rfl (fun _ => rfl) (by decide)
  | and d s x =>
    cases x with
    | register r =>
      show MadeOf _ "AND" [.register d, .register s, .register r]
      exact ⟨_, [.register d, .register s, .register r], rfl, rfl, fun _ _ => rfl, rfl⟩
    | immediate v =>
      exact madeOf_registersValue "AND" (.and d s <| .immediate ·) andImmediate .immediate d s v
        rfl (fun _ => rfl) (by decide)
  | not d s =>
    show MadeOf _ "NOT" [.register d, .register s]
    exact ⟨_, [.register d, .register s], rfl, rfl, fun _ _ => rfl, rfl⟩
  | ld d o => exact madeOf_registerValue "LD" (.ld d) load d o rfl (fun _ => rfl) (by decide)
  | ldi d o =>
    exact madeOf_registerValue "LDI" (.ldi d) loadIndirect d o rfl (fun _ => rfl) (by decide)
  | ldr d b o =>
    exact madeOf_registersValue "LDR" (.ldr d b) loadBase .offset d b o rfl (fun _ => rfl)
      (by decide)
  | lea d o =>
    exact madeOf_registerValue "LEA" (.lea d) loadAddress d o rfl (fun _ => rfl) (by decide)
  | st s o => exact madeOf_registerValue "ST" (.st s) store s o rfl (fun _ => rfl) (by decide)
  | sti s o =>
    exact madeOf_registerValue "STI" (.sti s) storeIndirect s o rfl (fun _ => rfl) (by decide)
  | str s b o =>
    exact madeOf_registersValue "STR" (.str s b) storeBase .offset s b o rfl (fun _ => rfl)
      (by decide)
  | jmp b =>
    simp only [operation]
    by_cases link : b = .r7
    · rw [if_pos link, link]
      show MadeOf _ "RET" []
      exact ⟨_, [], rfl, rfl, fun _ _ => rfl, rfl⟩
    · rw [if_neg link]
      show MadeOf _ "JMP" [.register b]
      exact ⟨_, [.register b], rfl, rfl, fun _ _ => rfl, rfl⟩
  | jsr o =>
    exact madeOf_value "JSR" call .offset rfl
      (congrArg Instruction.jsr (Word.narrow_signExtend (by decide) (by decide) o))
  | jsrr b =>
    show MadeOf _ "JSRR" [.register b]
    exact ⟨_, [.register b], rfl, rfl, fun _ _ => rfl, rfl⟩
  | trap v =>
    simp only [operation]
    cases named : TrapRoutine.ofVector? v with
    | some t => exact routine_of_ofVector? named ▸ madeOf_routine t
    | none =>
      exact madeOf_value "TRAP" trapTo .immediate rfl
        (congrArg Instruction.trap (Word.narrow_setWidth v))
  | rti => cases assembled
  | reserved => cases assembled

end Instruction

namespace Line

/-- An instruction takes one word. -/
theorem nextAddress_of_isInstruction (line : Line) {form : Form}
    (isInstruction : form.template.isInstruction = true) (a : Word) :
    form.template.isFinish = false ∧ line.nextAddress form a = .ok (a + 1) := by
  obtain ⟨opcode, slots, template⟩ := form
  cases template <;> cases isInstruction <;> exact ⟨rfl, rfl⟩

variable {line : Line} {i : Instruction}

/-- A line that says the operation of an instruction has the instruction as its contents. -/
theorem contents?_of_denotes (assembled : i.isAssembled = true)
    (denotes : line.toStatement = .ofOperation i.operation) (labels : Labels) (a : Word) :
    line.contents? labels a = .ok (some (.instruction i)) := by
  obtain ⟨form, arguments, found, isInstruction, resolved, contents⟩ :=
    i.madeOf_operation assembled
  have opcode : line.opcode = some i.operation.1 := congrArg Statement.opcode denotes
  have operands : line.operands = i.operation.2 := congrArg Statement.operands denotes
  obtain ⟨-, sized⟩ := line.nextAddress_of_isInstruction isInstruction a
  exact contents?_of_form form opcode (operands ▸ found) (operands ▸ resolved labels a) sized
    contents

/-- The first pass counts one word for the line. -/
theorem collectFrom_of_denotes (assembled : i.isAssembled = true)
    (denotes : line.toStatement = .ofOperation i.operation) (known : Labels) (a : Word)
    (rest : List Line) :
    Labels.collectFrom known a (line :: rest) = Labels.collectFrom known (a + 1) rest := by
  obtain ⟨form, arguments, found, isInstruction, -⟩ := i.madeOf_operation assembled
  have label : line.label = none := congrArg Statement.label denotes
  have opcode : line.opcode = some i.operation.1 := congrArg Statement.opcode denotes
  have operands : line.operands = i.operation.2 := congrArg Statement.operands denotes
  obtain ⟨going, next⟩ := line.nextAddress_of_isInstruction isInstruction a
  simp only [Labels.collectFrom, declare, label, form?, opcode, operands, found, going, next,
    Bool.false_eq_true, if_false]

end Line

end LC3
