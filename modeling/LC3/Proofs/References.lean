import LC3.Proofs.Effects
import LC3.Proofs.Layout

/-!
# Label references reach their target

A reference is an instruction that finds its operand relative to the program counter. When the
operand is a label, the assembler stores the distance from the incremented program counter, and a
step adds it again. If the distance fits in the field, the two cancel.
-/

namespace LC3

/-- The instructions with an operand relative to the program counter, without that operand. -/
inductive Reference
  | branch (condition : Condition)
  | load (dest : Register)
  | loadIndirect (dest : Register)
  | loadAddress (dest : Register)
  | store (src : Register)
  | storeIndirect (src : Register)
  | call
deriving DecidableEq

namespace Reference

def width : Reference → Nat
  | .call => 11
  | _ => 9

theorem width_bounds (r : Reference) : 0 < r.width ∧ r.width ≤ 16 := by
  cases r <;> exact ⟨by simp [width], by simp [width]⟩

def instruction (offset : Word) : Reference → Instruction
  | .branch c => .br c (offset.narrow 9)
  | .load d => .load d offset
  | .loadIndirect d => .loadIndirect d offset
  | .loadAddress d => .loadAddress d offset
  | .store s => .store s offset
  | .storeIndirect s => .storeIndirect s offset
  | .call => .call offset

/-- The line holds the reference, with this label as its operand. -/
def WrittenIn (line : Line) (name : String) : Reference → Prop
  | .branch c => (∃ opcode, line.opcode = some opcode ∧ Condition.ofMnemonic? opcode = some c) ∧
      line.operands = [.label name]
  | .load d => line.opcode = some "LD" ∧ line.operands = [.register d, .label name]
  | .loadIndirect d => line.opcode = some "LDI" ∧ line.operands = [.register d, .label name]
  | .loadAddress d => line.opcode = some "LEA" ∧ line.operands = [.register d, .label name]
  | .store s => line.opcode = some "ST" ∧ line.operands = [.register s, .label name]
  | .storeIndirect s => line.opcode = some "STI" ∧ line.operands = [.register s, .label name]
  | .call => line.opcode = some "JSR" ∧ line.operands = [.label name]

/-- What the reference does when the operand stands for the address `t`. -/
def effect (m : Machine) (t : Word) : Reference → Effect
  | .branch c => { next := if c.takes m.flag then t else m.pc + 1 }
  | .load d => { Effect.result m d (m.seen t) with reads := [t] }
  | .loadIndirect d => { Effect.result m d (m.seen (m.seen t)) with reads := [t, m.seen t] }
  | .loadAddress d => .result m d t
  | .store s => { next := m.pc + 1, stored := some (t, m.register s) }
  | .storeIndirect s =>
    { next := m.pc + 1, reads := [t], stored := some (m.seen t, m.register s) }
  | .call => { next := t, written := some (.r7, m.pc + 1) }

/-- Performing a reference has its effect at the address that the operand reaches. -/
theorem describes_effect (r : Reference) {m : Machine} {word offset t : Word}
    (reaches : m.pc + 1 + (offset.narrow r.width).signExtend 16 = t) :
    (r.effect m t).Describes m ({ m with pc := m.pc + 1 }.perform word (r.instruction offset)) := by
  subst reaches
  have read := Effect.Describes.of_reads m
  have nothing := Effect.Describes.of_nothing m
  cases r with
  | branch c =>
    simp only [effect, instruction, Machine.perform, Condition.takes_eq_accepts]
    split
    · exact nothing.goto _
    · exact nothing
  | load d =>
    simp only [instruction, Instruction.load, Machine.perform, Machine.load_eq_reading]
    exact (read [_]).setResult rfl rfl d _
  | loadIndirect d =>
    let t := m.pc + 1 + (offset.narrow 9).signExtend 16
    have pointer := Machine.load_eq_reading { m with pc := m.pc + 1 } t
    have value := Machine.load_pointer_eq_reading { m with pc := m.pc + 1 } t
    simp only [t] at pointer value
    simp only [instruction, Instruction.loadIndirect, Machine.perform, Machine.target, pointer,
      value]
    exact (read [_, _]).setResult rfl rfl d _
  | loadAddress d => exact nothing.setResult rfl rfl d _
  | store s => exact nothing.write rfl _ _
  | storeIndirect s =>
    have kept := Machine.register_load { m with pc := m.pc + 1 }
    simp only [instruction, Instruction.storeIndirect, Machine.perform,
      Machine.load_eq_reading] at kept ⊢
    rw [kept]
    exact (read [_]).write rfl _ _
  | call => exact (nothing.setRegister rfl rfl .r7 (m.pc + 1)).goto _

theorem resolveAll_label {labels : Labels} {name : String} {a t : Word}
    (found : labels.lookup name = some t) :
    Slot.resolveAll labels a [.offset] [.label name] = .ok [.value (t - (a + 1))] := by
  simp only [Slot.resolveAll, Slot.resolve, found, Slot.labelValue]

theorem contents?_registerValue {line : Line} {labels : Labels} {opcode name : String}
    {a t : Word} {d : Register} (make : Register → Word → Instruction)
    (written : line.opcode = some opcode ∧ line.operands = [.register d, .label name])
    (form : Form.find? opcode [.register d, .label name] =
      some ⟨opcode, [.register, .offset], .registerValue make⟩)
    (found : labels.lookup name = some t) :
    line.contents? labels a = .ok (some (.instruction (make d (t - (a + 1))))) := by
  obtain ⟨coded, operands⟩ := written
  have resolved : Slot.resolveAll labels a [.register, .offset] line.operands =
      .ok [.register d, .value (t - (a + 1))] := by
    rw [operands, Slot.resolveAll, resolveAll_label found]
    rfl
  exact Line.contents?_of_form _ coded (operands ▸ form) resolved rfl rfl

/-- The distance to a label takes the place of the operand. -/
theorem contents?_of_writtenIn {r : Reference} {line : Line} {labels : Labels} {name : String}
    {a t : Word} (written : r.WrittenIn line name) (found : labels.lookup name = some t) :
    line.contents? labels a = .ok (some (.instruction (r.instruction (t - (a + 1))))) := by
  cases r with
  | branch c =>
    obtain ⟨⟨opcode, coded, named⟩, operands⟩ := written
    have form : Form.find? opcode [.label name] = some ⟨"BR", [.offset], .branch⟩ := by
      rw [Form.find?, Form.key, named]
      rfl
    refine Line.contents?_of_form _ coded (operands ▸ form) (operands ▸ resolveAll_label found) rfl ?_
    simp only [Template.contents, named, Instruction.branch,
      Condition.isEmpty_of_ofMnemonic? named]
    rfl
  | load d => exact contents?_registerValue Instruction.load written rfl found
  | loadIndirect d => exact contents?_registerValue Instruction.loadIndirect written rfl found
  | loadAddress d => exact contents?_registerValue Instruction.loadAddress written rfl found
  | store s => exact contents?_registerValue Instruction.store written rfl found
  | storeIndirect s => exact contents?_registerValue Instruction.storeIndirect written rfl found
  | call =>
    obtain ⟨coded, operands⟩ := written
    exact Line.contents?_of_form ⟨"JSR", [.offset], .oneValue .call⟩ coded (operands ▸ rfl)
      (operands ▸ resolveAll_label found) rfl rfl

theorem label_mem_operands {r : Reference} {line : Line} {name : String}
    (written : r.WrittenIn line name) : Operand.label name ∈ line.operands := by
  cases r <;> (rw [written.2]; simp)

/-- A distance that fits is added again to the incremented program counter. -/
theorem describes_effect_target {r : Reference} {m : Machine} {word t : Word}
    (fits : (t - (m.pc + 1)).Fits r.width) :
    (r.effect m t).Describes m
      ({ m with pc := m.pc + 1 }.perform word (r.instruction (t - (m.pc + 1)))) := by
  obtain ⟨positive, small⟩ := r.width_bounds
  apply describes_effect
  rw [Word.signExtend_narrow positive small fits, BitVec.add_comm, BitVec.sub_add_cancel]

/-- A pass that succeeds has addresses for the labels of each line that it takes up. -/
theorem exists_lookup {r : Reference} {line : Line} {name : String} {labels : Labels}
    {m m' : Machine} {a : Word} {rest : List Line} (written : r.WrittenIn line name)
    (succeeds : m.emit labels a (line :: rest) = (.ok (), m')) :
    ∃ t, labels.lookup name = some t := by
  cases made : line.contents? labels a with
  | error e =>
    rw [Machine.emit_cons, made] at succeeds
    cases succeeds
  | ok c =>
    cases c with
    | some c => exact Line.exists_lookup_of_contents? made (label_mem_operands written)
    | none =>
      have blank := Line.opcode_of_form?_eq_ok_none (Line.form?_of_contents?_eq_ok_none made)
      cases r with
      | branch c =>
        obtain ⟨⟨opcode, coded, -⟩, -⟩ := written
        cases blank.symm.trans coded
      | _ => cases blank.symm.trans written.1

/-- In a program that the assembler accepts, every line that refers to a label before `.END` has an
address `a`, the label an address `t`, and one word `w` is written at `a`. It is still there when
the program is assembled, if no later line lays a word over it. If the distance fits in the field of
the reference, then a running machine that fetches `w` at `a` uses exactly `t`. -/
theorem reference_hits_label {m m₁ : Machine} {lines before after : List Line} {line : Line}
    {labels : Labels} {r : Reference} {name : String}
    (accepted : m.assemble lines = (.ok labels, m₁)) (place : lines = before ++ line :: after)
    (going : ∀ l ∈ before, l.opcode ≠ some Keyword.finish) (written : r.WrittenIn line name) :
    ∃ m' a t w, m.emit labels 0 before = (.ok (), m') ∧
      (∀ rest, m.emit labels 0 (before ++ rest) = m'.emit labels a rest) ∧
      labels.lookup name = some t ∧
      (∀ rest, m.emit labels 0 (before ++ line :: rest) =
        (m'.write a w).emit labels (a + 1) rest) ∧
      (m.emit labels 0 (before ++ [line])).2.peek a = w ∧
      m₁.peek a =
        (lastLaid (cells (layout labels (a + 1) (Line.beforeFinish after))) a).getD w ∧
      ((t - (a + 1)).Fits r.width →
        ∀ s : Machine, s.running = true → s.pc = a → a ≠ Machine.keyboardStatus → s.peek a = w →
          (r.effect s t).Describes s s.step) := by
  subst place
  obtain ⟨-, succeeds⟩ := Machine.assemble_eq_ok_iff.mp accepted
  obtain ⟨m', a, path⟩ := Moment.exists_reaches succeeds going
  obtain ⟨passed, onward⟩ := Moment.emit_append path
  obtain ⟨t, found⟩ := exists_lookup written ((onward _).symm.trans succeeds)
  have step : ∀ rest, m.emit labels 0 (before ++ line :: rest) =
      (m'.write a (r.instruction (t - (a + 1))).encode).emit labels (a + 1) rest :=
    fun rest => (onward _).trans (Machine.emit_of_words _ (contents?_of_writtenIn written found))
  have here : (m'.write a (r.instruction (t - (a + 1))).encode).peek a =
      (r.instruction (t - (a + 1))).encode := (Memory.read_write ..).trans (if_pos rfl)
  obtain ⟨image, -⟩ := Machine.emit_eq_layout ((step after).symm.trans succeeds)
  refine ⟨m', a, t, _, passed, onward, found, step, ?_, (image a).trans (by rw [here]), ?_⟩
  · rw [step []]
    exact here
  · intro fits s running at_a quiet fetched
    subst at_a
    rw [Machine.step_of_encode running quiet fetched]
    exact describes_effect_target fits

/-- A loop whose branch goes back past the end of memory. -/
def loopLines : List Line :=
  [{ opcode := some ".ORIG", operands := [.number 0xFFFF], number := 1, span := ⟨0, 11⟩ },
    { label := some "LOOP", opcode := some "LEA", operands := [.register .r0, .label "TEXT"],
      number := 2, span := ⟨12, 17⟩ },
    { opcode := some "BRNZ", operands := [.label "LOOP"], number := 3, span := ⟨30, 9⟩ },
    { label := some "TEXT", opcode := some ".STRINGZ", operands := [.string "x"], number := 4,
      span := ⟨40, 17⟩ }]

def loopLabels : Labels := [("LOOP", 0xFFFF), ("TEXT", 1)]

/-- The branch is in the first cell of memory, and its target in the last. -/
theorem loop_branch_hits_label :
    ∃ m w, Machine.new.assemble loopLines = (.ok loopLabels, m) ∧ m.peek 0 = w ∧
      ∀ s : Machine, s.running = true → s.pc = 0 → s.peek 0 = w →
        s.step.1 = .ok .executed ∧
          s.step.2.pc = if s.flag = some .negative ∨ s.flag = some .zero then 0xFFFF else 1 := by
  have accepted : Machine.new.assemble loopLines =
      (.ok loopLabels, (Machine.new.assemble loopLines).2) := rfl
  have place : loopLines = loopLines.take 2 ++ loopLines[2] :: loopLines.drop 3 := rfl
  have written : (branch ⟨true, true, false⟩).WrittenIn loopLines[2] "LOOP" :=
    ⟨⟨"BRNZ", rfl, rfl⟩, rfl⟩
  obtain ⟨m', a, t, w, passed, onward, found, -, -, image, run⟩ :=
    reference_hits_label accepted place (by decide) written
  obtain rfl : t = 0xFFFF := (Option.some.inj found).symm
  have address : a = 0 := by
    -- A datum in the place of the branch gets into the cell of the branch.
    have datum := onward
      [{ opcode := some ".FILL", operands := [.number 1], number := 3, span := ⟨30, 9⟩ }]
    rw [m'.emit_of_words [1] rfl] at datum
    have before : m'.peek 0 = 0 :=
      (congrArg (fun r => r.2.peek 0) passed).symm.trans (by decide +kernel)
    have after : (m'.write a 1).peek 0 = 1 :=
      (congrArg (fun r => r.2.peek 0) datum).symm.trans (by decide +kernel)
    by_cases here : a = 0
    · exact here
    · have kept : (m'.write a 1).peek 0 = m'.peek 0 := (Memory.read_write ..).trans (if_neg here)
      cases after.symm.trans (kept.trans before)
  subst address
  refine ⟨_, w, accepted, image, ?_⟩
  intro s running at_zero fetched
  have taken := run (by decide) s running at_zero (by decide) fetched
  refine ⟨taken.outcome, taken.pc.trans ?_⟩
  rw [effect, at_zero]
  rcases s.flag with _ | _ | _ | _ <;> rfl

end Reference

end LC3
