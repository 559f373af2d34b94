import LC3.Proofs.References

/-!
# Built instructions do what their operands say

A builder squeezes whole words into the fields of an instruction, and a step takes the fields out of
the word that it fetches. Between the two an operand keeps its value if it fits in its field. What a
step makes of a built word is stated on the operands themselves, for every builder and every
running machine.
-/

namespace LC3

/-- A builder with its operands. The references are the builders of instructions with an operand
relative to the program counter. -/
inductive Builder
  | reference (r : Reference) (offset : Word)
  | addRegister (dest src1 src2 : Register)
  | addImmediate (dest src : Register) (value : Word)
  | andRegister (dest src1 src2 : Register)
  | andImmediate (dest src : Register) (value : Word)
  | not (dest src : Register)
  | loadBase (dest base : Register) (offset : Word)
  | storeBase (src base : Register) (offset : Word)
  | jsrr (base : Register)
  | jmp (base : Register)
  | ret
  | trapTo (vector : Word)
  | routine (t : TrapRoutine)
deriving DecidableEq

namespace Reference

/-- The builder of a reference refuses a branch on no sign. -/
def build (offset : Word) : Reference → Except EncodingError Instruction
  | .branch c => Instruction.branch c offset
  | .load d => .ok (.load d offset)
  | .loadIndirect d => .ok (.loadIndirect d offset)
  | .loadAddress d => .ok (.loadAddress d offset)
  | .store s => .ok (.store s offset)
  | .storeIndirect s => .ok (.storeIndirect s offset)
  | .call => .ok (.call offset)

theorem eq_instruction_of_build {r : Reference} {offset : Word} {i : Instruction}
    (built : r.build offset = .ok i) : i = r.instruction offset := by
  cases r with
  | branch c =>
    rw [build, Instruction.branch] at built
    split at built
    · cases built
    · cases built
      rfl
  | _ =>
    cases built
    rfl

def dest? : Reference → Option Register
  | .load d | .loadIndirect d | .loadAddress d => some d
  | .call => some .r7
  | _ => none

/-- Whether the reference sends control to its target, given the sign of the last result. -/
def transfers (flag : Option Sign) : Reference → Bool
  | .branch c => c.takes flag
  | .call => true
  | _ => false

end Reference

namespace Builder

def build : Builder → Except EncodingError Instruction
  | .reference r offset => r.build offset
  | .addRegister d a b => .ok (.addRegister d a b)
  | .addImmediate d s v => .ok (.addImmediate d s v)
  | .andRegister d a b => .ok (.andRegister d a b)
  | .andImmediate d s v => .ok (.andImmediate d s v)
  | .not d s => .ok (.not d s)
  | .loadBase d b o => .ok (.loadBase d b o)
  | .storeBase s b o => .ok (.storeBase s b o)
  | .jsrr b => .ok (.jsrr b)
  | .jmp b => .ok (.jmp b)
  | .ret => .ok .ret
  | .trapTo v => .ok (.trapTo v)
  | .routine t => .ok (.routine t)

/-- What a trap with this vector does: the service routine of the vector, or else a call of the
address that the vector table has for it. -/
def trapDeed (m : Machine) (vector : Word) : Deed :=
  match TrapRoutine.all.find? fun t => t.vector.setWidth 16 = vector with
  | some t => t.deed m
  | none => .completes { next := m.peek vector, written := some (.r7, m.pc + 1) }

/-- What the instruction does, in terms of the operands of its builder. -/
def deed (m : Machine) : Builder → Deed
  | .reference r o => .completes (r.effect m (m.pc + 1 + o.operandValue r.width))
  | .addRegister d a b => .completes (.result m d (m.register a + m.register b))
  | .addImmediate d s v => .completes (.result m d (m.register s + v.operandValue 5))
  | .andRegister d a b => .completes (.result m d (m.register a &&& m.register b))
  | .andImmediate d s v => .completes (.result m d (m.register s &&& v.operandValue 5))
  | .not d s => .completes (.result m d (~~~m.register s))
  | .loadBase d b o =>
    let a := m.register b + o.operandValue 6
    .completes { Effect.result m d (m.seen a) with reads := [a] }
  | .storeBase s b o =>
    .completes
      { next := m.pc + 1, stored := some (m.register b + o.operandValue 6, m.register s) }
  | .jsrr b =>
    .completes
      { next := if b = .r7 then m.pc + 1 else m.register b, written := some (.r7, m.pc + 1) }
  | .jmp b => .completes { next := m.register b }
  | .ret => .completes { next := m.register .r7 }
  | .trapTo v => trapDeed m v.vectorValue
  | .routine t => t.deed m

/-- The register that the instruction writes, traps apart. -/
def dest? : Builder → Option Register
  | .reference r _ => r.dest?
  | .addRegister d _ _ | .addImmediate d _ _ | .andRegister d _ _ | .andImmediate d _ _ => some d
  | .not d _ | .loadBase d _ _ => some d
  | .jsrr _ => some .r7
  | _ => none

def isTrap : Builder → Bool
  | .trapTo _ | .routine _ => true
  | _ => false

def transfers (flag : Option Sign) : Builder → Bool
  | .reference r _ => r.transfers flag
  | .jsrr _ | .jmp _ | .ret => true
  | _ => false

/-- A vector that has no service routine is not the address of the keyboard status. -/
theorem describes_trapDeed (m : Machine) (word : Word) (v : BitVec 8) :
    (trapDeed m (v.setWidth 16)).Describes m ({ m with pc := m.pc + 1 }.perform word (.trap v)) := by
  rw [trapDeed, ← TrapRoutine.ofVector?_eq_find?]
  cases routine : TrapRoutine.ofVector? v with
  | some t =>
    simp only [Machine.perform, routine]
    exact t.describes_deed m
  | none =>
    simp only [Machine.perform, routine, Machine.callVector,
      Machine.load_of_ne (Machine.setWidth_ne_keyboardStatus v)]
    exact ((Effect.Describes.of_nothing m).setRegister rfl rfl .r7 (m.pc + 1)).goto _

theorem describes_of_build {b : Builder} {i : Instruction} (built : b.build = .ok i) (m : Machine)
    (word : Word) : (b.deed m).Describes m ({ m with pc := m.pc + 1 }.perform word i) := by
  have field (n : Nat) (positive : 0 < n) (small : n ≤ 16) (w : Word) :=
    Word.signExtend_narrow_eq_operandValue positive small w
  have nothing := Effect.Describes.of_nothing m
  cases b with
  | reference r o =>
    rw [Reference.eq_instruction_of_build built, deed]
    apply Reference.describes_effect
    rw [field _ r.width_bounds.1 r.width_bounds.2]
  | addImmediate d s v | andImmediate d s v =>
    cases built
    rw [deed, ← field 5 (by decide) (by decide)]
    exact nothing.setResult rfl rfl d _
  | addRegister d _ _ | andRegister d _ _ | not d _ =>
    cases built
    exact nothing.setResult rfl rfl d _
  | loadBase d b o =>
    cases built
    simp only [deed, ← field 6 (by decide) (by decide), Instruction.loadBase, Machine.perform,
      Machine.load_eq_reading]
    exact (Effect.Describes.of_reads m [_]).setResult rfl rfl d _
  | storeBase s b o =>
    cases built
    rw [deed, ← field 6 (by decide) (by decide)]
    exact nothing.write rfl _ _
  | jsrr b =>
    cases built
    have linked := nothing.setRegister rfl rfl .r7 (m.pc + 1)
    -- The link register is written before the base register is read.
    have base : (m.setRegister .r7 (m.pc + 1)).register b =
        if b = .r7 then m.pc + 1 else m.register b := by
      simp only [eq_comm (a := b)]
      exact m.register_setRegister .r7 b (m.pc + 1)
    rw [deed, ← base]
    exact linked.goto _
  | jmp b | ret =>
    cases built
    exact nothing.goto _
  | trapTo v =>
    cases built
    rw [deed, ← Word.setWidth_narrow_eq_vectorValue]
    exact describes_trapDeed m word _
  | routine t =>
    cases built
    simp only [Instruction.routine, Machine.perform, TrapRoutine.ofVector?_vector]
    exact t.describes_deed m

/-- Every form but a trap completes. It writes no register but the one named, and goes on to the next
address if it does not transfer control. -/
theorem exists_effect {b : Builder} (plain : b.isTrap = false) (m : Machine) :
    ∃ e : Effect, b.deed m = .completes e ∧ e.written.map Prod.fst = b.dest? ∧
      (b.transfers m.flag = false → e.next = m.pc + 1) := by
  cases b with
  | reference r o =>
    refine ⟨_, rfl, ?_, ?_⟩
    · cases r <;> rfl
    · intro stays
      cases r with
      | branch c => exact if_neg (by simpa [transfers, Reference.transfers] using stays)
      | call => cases stays
      | _ => rfl
  | jsrr b | jmp b => exact ⟨_, rfl, rfl, nofun⟩
  | ret => exact ⟨_, rfl, rfl, nofun⟩
  | trapTo v => cases plain
  | routine t => cases plain
  | _ => exact ⟨_, rfl, rfl, fun _ => rfl⟩

/-- A running machine that fetches a built word does what the builder's operands say. Every form but
a trap keeps the registers that it does not write, and goes on to the next address unless it is a
jump, a call or a branch that is taken. -/
theorem step_of_built {b : Builder} {i : Instruction} {m : Machine} (built : b.build = .ok i)
    (running : m.running = true) (quiet : m.pc ≠ Machine.keyboardStatus)
    (fetched : m.peek m.pc = i.encode) :
    (b.deed m).Describes m m.step ∧
      (b.isTrap = false →
        (∀ r, b.dest? ≠ some r → m.step.2.register r = m.register r) ∧
        (b.transfers m.flag = false → m.step.2.pc = m.pc + 1)) := by
  have done : (b.deed m).Describes m m.step := by
    rw [Machine.step_of_encode running quiet fetched]
    exact describes_of_build built m _
  refine ⟨done, fun plain => ?_⟩
  obtain ⟨e, completes, dest, next⟩ := exists_effect plain m
  rw [completes] at done
  refine ⟨fun r other => done.otherRegisters r fun w written => other ?_, fun stays => ?_⟩
  · rw [← dest, written]
    rfl
  · rw [done.pc, next stays]

/-- A machine about to load into `R3` through the keyboard status cell, with a word to poll. -/
def statusLoader : Machine :=
  { (Machine.new.write 0x8000 0xBEEF).write 0xFDFF
      (Instruction.loadIndirect ⟨3⟩ 0).encode with
    pc := 0xFDFF
    running := true
    input := .single 0x41 }

/-- The poll makes the status `x8000`, which is where the load is from. -/
theorem statusLoader_step :
    statusLoader.peek statusLoader.pc = (Instruction.loadIndirect ⟨3⟩ 0).encode ∧
      statusLoader.step.1 = .ok .executed ∧
      statusLoader.step.2.register ⟨3⟩ = 0xBEEF ∧
      statusLoader.step.2.flag = some .negative ∧
      statusLoader.step.2.peek Machine.keyboardData = 0x41 ∧
      statusLoader.step.2.input.items = [] ∧
      statusLoader.step.2.register .r0 = 0 ∧ statusLoader.step.2.pc = Machine.keyboardStatus := by
  have fetched : statusLoader.peek statusLoader.pc = (Instruction.loadIndirect ⟨3⟩ 0).encode :=
    (Memory.read_write ..).trans (if_pos rfl)
  obtain ⟨done, plain⟩ :=
    step_of_built (b := .reference (.loadIndirect ⟨3⟩) 0) rfl rfl (by decide) fetched
  have target : statusLoader.pc + 1 + Word.operandValue 0 9 = Machine.keyboardStatus := by decide
  have status : statusLoader.seen Machine.keyboardStatus = 0x8000 := rfl
  have shown : statusLoader.seen (statusLoader.seen Machine.keyboardStatus) = 0xBEEF := by
    rw [status]
    simp [statusLoader, Machine.seen, Machine.keyboardStatus, Machine.peek, Machine.write,
      Memory.read_write]
  obtain ⟨others, next⟩ := plain rfl
  have width : (Reference.loadIndirect ⟨3⟩).width = 9 := rfl
  rw [deed, width, target, Reference.effect, shown] at done
  refine ⟨fetched, done.outcome, done.register _ _ rfl, done.flag, done.otherCells _ ?_,
    done.input, others _ (by decide), next rfl⟩
  intro w stored
  cases stored

end Builder

end LC3
