import LC3.Machine.Step
import LC3.Proofs.Reassembly

/-!
# A word acts as its text says

The text of a word shows no bit that its class leaves unused. Assembling the text gives a word with
those bits in their usual state, and performing either has the same effect on every machine. The
texts `NOP`, `RTI` and `RES` are no operations: the first belongs to the branches on no sign, which
do nothing, and the others to the two classes that fault.
-/

namespace LC3

namespace Instruction

/-- The instructions for which there is no operation. -/
theorem cases_of_not_isAssembled {i : Instruction} (reserved : i.isAssembled = false) :
    (∃ c o, i = .br c o ∧ c.isEmpty = true) ∨ i = .rti ∨ i = .reserved := by
  cases i with
  | br c o =>
    have empty : c.isEmpty = true := by simpa [isAssembled] using reserved
    exact .inl ⟨c, o, rfl, empty⟩
  | rti => exact .inr (.inl rfl)
  | reserved => exact .inr (.inr rfl)
  | _ => cases reserved

/-- The texts of the instructions for which there is no operation. -/
def idleTexts : List String := ["NOP", "RTI", "RES"]

theorem text_mem_idleTexts {i : Instruction} (reserved : i.isAssembled = false)
    (mode : LiteralMode) : i.text mode ∈ idleTexts := by
  rcases cases_of_not_isAssembled reserved with ⟨c, o, rfl, empty⟩ | rfl | rfl
  · rw [text, if_pos empty]
    exact List.mem_cons_self
  · exact List.mem_cons_of_mem _ List.mem_cons_self
  · exact List.mem_cons_of_mem _ (List.mem_cons_of_mem _ List.mem_cons_self)

/-- These texts are read as labels, while the text of an operation has an opcode. -/
theorem isAssembled_iff_text (i : Instruction) (mode : LiteralMode) :
    i.isAssembled = true ↔ i.text mode ∉ idleTexts := by
  constructor
  · intro assembled idle
    have labels : ∀ text ∈ idleTexts,
        (Cursor.start text.toList).statement = .ok { label := some text } := by
      simp only [idleTexts, List.forall_mem_cons]
      exact ⟨rfl, rfl, rfl, by simp⟩
    cases (labels _ idle).symm.trans (isLine_text assembled mode).read
  · intro shown
    cases assembled : i.isAssembled with
    | true => rfl
    | false => exact absurd (text_mem_idleTexts assembled mode) shown

theorem not_isAssembled_of_text {i : Instruction} {mode : LiteralMode}
    (idle : i.text mode ∈ idleTexts) : i.isAssembled = false := by
  rw [← Bool.not_eq_true, isAssembled_iff_text i mode]
  exact fun unlisted => unlisted idle

/-- Only a branch on no sign reads `NOP`. -/
theorem eq_branch_of_text {i : Instruction} {mode : LiteralMode} (shown : i.text mode = "NOP") :
    ∃ c o, i = .br c o ∧ c.isEmpty = true := by
  have reserved : i.isAssembled = false := by
    apply @not_isAssembled_of_text i mode
    rw [shown]
    decide
  rcases cases_of_not_isAssembled reserved with branch | rfl | rfl
  · exact branch
  · exact absurd (show "RTI" = "NOP" from shown) (by decide)
  · exact absurd (show "RES" = "NOP" from shown) (by decide)

/-- Only the reserved classes read `RTI` and `RES`. -/
theorem eq_reserved_of_text {i : Instruction} {mode : LiteralMode}
    (shown : i.text mode = "RTI" ∨ i.text mode = "RES") : i = .rti ∨ i = .reserved := by
  have reserved : i.isAssembled = false := by
    apply @not_isAssembled_of_text i mode
    rcases shown with shown | shown <;> (rw [shown]; decide)
  rcases cases_of_not_isAssembled reserved with ⟨c, o, rfl, empty⟩ | classes
  · rw [text, if_pos empty] at shown
    rcases shown with shown | shown <;> exact absurd shown (by decide)
  · exact classes

end Instruction

namespace Machine

/-- The fetched word itself matters only to the classes that fault. -/
theorem perform_congr {i : Instruction} (assembled : i.isAssembled = true) (m : Machine)
    (w c : Word) : m.perform w i = m.perform c i := by
  cases i with
  | rti => cases assembled
  | reserved => cases assembled
  | _ => rfl

/-- A branch on no sign is never taken. -/
theorem perform_branch_of_isEmpty {c : Condition} (empty : c.isEmpty = true) (m : Machine)
    (w : Word) (o : BitVec 9) :
    m.perform w (.br c o) = (.ok .executed, { m with executed := m.executed + 1 }) := by
  obtain ⟨n, z, p⟩ := c
  have none_accepted : n = false ∧ z = false ∧ p = false := by
    simpa [Condition.isEmpty, and_assoc] using empty
  obtain ⟨rfl, rfl, rfl⟩ := none_accepted
  have refused : Condition.accepts ⟨false, false, false⟩ m.flag = false := by
    rcases m.flag with _ | sign
    · rfl
    · cases sign <;> rfl
  rw [perform, refused]
  rfl

end Machine

/-- The text of a word with an operation, as a source of its own, assembles to the one word that
encodes the instruction. -/
theorem assemble_disassemble {w : Word} (assembled : (Instruction.decode w).isAssembled = true)
    (mode : LiteralMode) :
    assemble (disassemble w mode) =
      .ok (Machine.new.write 0 (Instruction.decode w).encode, []) := by
  have assembled' : ∀ i ∈ [Instruction.decode w], i.isAssembled = true := by
    simpa using assembled
  have listed : ∀ p ∈ [(w, mode)], (Instruction.decode p.1).isAssembled = true := by
    simpa using assembled
  obtain ⟨lines, parsed, denotes⟩ := exists_denote_of_listing listed
  have source : listing [(w, mode)] = disassemble w mode := by
    simp [listing]
  have collected : Labels.collect lines = .ok [] := collectFrom_of_denotes assembled' denotes [] 0
  have emitted := emit_of_denotes assembled' denotes [] Machine.new 0
  rw [← source]
  simp only [assemble, parsed, Machine.assemble, collected, emitted]
  rfl

/-- The machine does what the text of a word says. A text that is an operation assembles to a word
with the same text and the same effect on every machine; a `NOP` only counts as an instruction;
the other texts are faults that change nothing. -/
theorem acts_as_disassembled (w : Word) (mode : LiteralMode) :
    (disassemble w mode ∉ ["NOP", "RTI", "RES"] →
      ∃ c, assemble (disassemble w mode) = .ok (Machine.new.write 0 c, []) ∧
        disassemble c mode = disassemble w mode ∧ ∀ m : Machine, m.execute w = m.execute c) ∧
    (disassemble w mode = "NOP" →
      ∀ m : Machine, m.execute w = (.ok .executed, { m with executed := m.executed + 1 })) ∧
    (disassemble w mode = "RTI" ∨ disassemble w mode = "RES" →
      ∀ m : Machine, m.execute w = (.error (.badInstruction (m.pc - 1) w), m)) := by
  have text := disassemble_eq_text w mode
  refine ⟨fun shown => ?_, fun shown m => ?_, fun shown m => ?_⟩
  · have assembled := ((Instruction.decode w).isAssembled_iff_text mode).mpr (text ▸ shown)
    refine ⟨(Instruction.decode w).encode, assemble_disassemble assembled mode, ?_, fun m => ?_⟩
    · rw [disassemble_eq_text, Instruction.decode_encode, text]
    · rw [Machine.execute_eq_perform, Machine.execute_eq_perform, Instruction.decode_encode]
      exact Machine.perform_congr assembled m _ _
  · obtain ⟨c, o, decoded, empty⟩ := Instruction.eq_branch_of_text (text ▸ shown)
    rw [Machine.execute_eq_perform, decoded]
    exact Machine.perform_branch_of_isEmpty empty m w o
  · rw [Machine.execute_eq_perform]
    rcases Instruction.eq_reserved_of_text (text ▸ shown) with decoded | decoded <;> (rw [decoded]; rfl)

/-- A complement with low bits that no builder writes, a branch on no sign with an offset, and a
reserved word. -/
theorem noisy_words_act_as_disassembled :
    (∃ c, assemble (disassemble 0x9041 .hex) = .ok (Machine.new.write 0 c, []) ∧
      disassemble c .hex = disassemble 0x9041 .hex ∧
      ∀ m : Machine, m.execute 0x9041 = m.execute c) ∧
    (∀ m : Machine, m.execute 0x01FF = (.ok .executed, { m with executed := m.executed + 1 })) ∧
    ∀ m : Machine, m.execute 0xDEAD = (.error (.badInstruction (m.pc - 1) 0xDEAD), m) :=
  ⟨(acts_as_disassembled 0x9041 .hex).1 (by decide +kernel),
    (acts_as_disassembled 0x01FF .dec).2.1 (by decide +kernel),
    (acts_as_disassembled 0xDEAD .hex).2.2 (.inr (by decide +kernel))⟩

end LC3
