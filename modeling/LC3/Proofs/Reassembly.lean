import LC3.Proofs.Emission
import LC3.Proofs.Listing

/-!
# Listings assemble to the words listed

The builders give encodings of instructions for which there is an operation. A source of their
listings, line by line and each in a mode of its own, is read and assembled again, and the image
holds the words in their order.
-/

namespace LC3

/-- The words that the builders of instructions give. -/
inductive Built : Word → Prop
  | branch {c : Condition} {offset : Word} {i : Instruction}
      (encodable : Instruction.branch c offset = .ok i) : Built i.encode
  | addRegister (d a b : Register) : Built (Instruction.addRegister d a b).encode
  | addImmediate (d s : Register) (v : Word) : Built (Instruction.addImmediate d s v).encode
  | andRegister (d a b : Register) : Built (Instruction.andRegister d a b).encode
  | andImmediate (d s : Register) (v : Word) : Built (Instruction.andImmediate d s v).encode
  | not (d s : Register) : Built (Instruction.not d s).encode
  | load (d : Register) (offset : Word) : Built (Instruction.load d offset).encode
  | loadIndirect (d : Register) (offset : Word) : Built (Instruction.loadIndirect d offset).encode
  | loadBase (d b : Register) (offset : Word) : Built (Instruction.loadBase d b offset).encode
  | loadAddress (d : Register) (offset : Word) : Built (Instruction.loadAddress d offset).encode
  | store (s : Register) (offset : Word) : Built (Instruction.store s offset).encode
  | storeIndirect (s : Register) (offset : Word) : Built (Instruction.storeIndirect s offset).encode
  | storeBase (s b : Register) (offset : Word) : Built (Instruction.storeBase s b offset).encode
  | call (offset : Word) : Built (Instruction.call offset).encode
  | jsrr (b : Register) : Built (Instruction.jsrr b).encode
  | jmp (b : Register) : Built (Instruction.jmp b).encode
  | ret : Built Instruction.ret.encode
  | trapTo (vector : Word) : Built (Instruction.trapTo vector).encode
  | routine (t : TrapRoutine) : Built (Instruction.routine t).encode

/-- A built word is the encoding of an instruction for which there is an operation. -/
theorem Built.decode {w : Word} (built : Built w) :
    (Instruction.decode w).isAssembled = true ∧ (Instruction.decode w).encode = w := by
  obtain ⟨i, assembled, rfl⟩ : ∃ i : Instruction, i.isAssembled = true ∧ i.encode = w := by
    cases built with
    | @branch c offset i encodable =>
      refine ⟨i, ?_, rfl⟩
      rw [Instruction.branch] at encodable
      split at encodable
      · cases encodable
      · next nonempty =>
        cases encodable
        simpa [Instruction.isAssembled] using nonempty
    | _ => exact ⟨_, rfl, rfl⟩
  rw [Instruction.decode_encode]
  exact ⟨assembled, rfl⟩

def listing (program : List (Word × LiteralMode)) : String :=
  "\n".intercalate (program.map fun p => disassemble p.1 p.2)

def Denote (lines : List Line) (is : List Instruction) : Prop :=
  lines.map Line.toStatement = is.map fun i => .ofOperation i.operation

/-- The source of the listings is read as lines that say the operations. -/
theorem exists_denote_of_listing {program : List (Word × LiteralMode)}
    (assembled : ∀ p ∈ program, (Instruction.decode p.1).isAssembled = true) :
    ∃ lines, Source.parse (listing program) = .ok lines ∧
      Denote lines (program.map fun p => .decode p.1) := by
  have readable : ∀ p ∈ program.map fun p =>
      (disassemble p.1 p.2, Statement.ofOperation (Instruction.decode p.1).operation),
      Source.IsLine p.1.toList p.2 := by
    intro p member
    obtain ⟨q, known, rfl⟩ := List.mem_map.mp member
    exact (disassemble_eq_text q.1 q.2).symm ▸ Instruction.isLine_text (assembled q known) q.2
  obtain ⟨lines, parsed, denotes⟩ := Source.parse_intercalate _ readable
  rw [List.map_map] at parsed denotes
  refine ⟨lines, parsed, ?_⟩
  rw [Denote, denotes, List.map_map]
  rfl

/-- Lines of instructions declare no label. -/
theorem collectFrom_of_denotes {lines : List Line} {is : List Instruction}
    (assembled : ∀ i ∈ is, i.isAssembled = true) (denotes : Denote lines is) (known : Labels)
    (a : Word) : Labels.collectFrom known a lines = .ok known := by
  induction is generalizing lines a with
  | nil =>
    cases List.map_eq_nil_iff.mp denotes
    rfl
  | cons i is ih =>
    obtain ⟨line, rest, rfl, first, others⟩ := List.map_eq_cons_iff.mp denotes
    rw [Line.collectFrom_of_denotes (assembled i List.mem_cons_self) first]
    exact ih (fun j later => assembled j (List.mem_cons_of_mem i later)) others (a + 1)

/-- Lines of instructions are written as their words. -/
theorem emit_of_denotes {lines : List Line} {is : List Instruction}
    (assembled : ∀ i ∈ is, i.isAssembled = true) (denotes : Denote lines is) (labels : Labels)
    (m : Machine) (a : Word) :
    m.emit labels a lines = (.ok (), m.writeAll a (is.map Instruction.encode)) := by
  induction is generalizing lines m a with
  | nil =>
    cases List.map_eq_nil_iff.mp denotes
    rfl
  | cons i is ih =>
    obtain ⟨line, rest, rfl, first, others⟩ := List.map_eq_cons_iff.mp denotes
    have made := Line.contents?_of_denotes (assembled i List.mem_cons_self) first labels a
    have later := ih (fun j later => assembled j (List.mem_cons_of_mem i later)) others
      (m.writeAll a [i.encode]) (a + 1)
    simp only [Machine.emit_cons, made, Contents.instruction]
    exact later

/-- Disassembly and then assembly give back every program of built words. -/
theorem assemble_listing {program : List (Word × LiteralMode)} (built : ∀ p ∈ program, Built p.1)
    (fits : program.length ≤ 65536) :
    ∃ m, assemble (listing program) = .ok (m, []) ∧ m.pc = 0 ∧
      (∀ i (inside : i < program.length), m.peek (BitVec.ofNat 16 i) = program[i].1) ∧
      ∀ a : Word, program.length ≤ a.toNat → m.peek a = 0 := by
  have assembled : ∀ p ∈ program, (Instruction.decode p.1).isAssembled = true :=
    fun p listed => (built p listed).decode.1
  have assembled' : ∀ i ∈ program.map fun p => Instruction.decode p.1, i.isAssembled = true := by
    intro i listed
    obtain ⟨p, member, rfl⟩ := List.mem_map.mp listed
    exact assembled p member
  have words : (program.map fun p => Instruction.decode p.1).map Instruction.encode =
      program.map Prod.fst := by
    rw [List.map_map]
    exact List.map_congr_left fun p listed => (built p listed).decode.2
  obtain ⟨lines, parsed, denotes⟩ := exists_denote_of_listing assembled
  have collected : Labels.collect lines = .ok [] := collectFrom_of_denotes assembled' denotes [] 0
  have emitted := emit_of_denotes assembled' denotes [] Machine.new 0
  rw [words] at emitted
  have cells := @Machine.peek_new_writeAll (program.map Prod.fst) (by simpa using fits)
  refine ⟨Machine.new.writeAll 0 (program.map Prod.fst), ?_, rfl, ?_, ?_⟩
  · simp only [assemble, parsed, Machine.assemble, collected, emitted]
  · intro i inside
    rw [cells, BitVec.toNat_ofNat, Nat.mod_eq_of_lt (by omega)]
    simp [inside]
  · intro a outside
    rw [cells, List.getElem?_eq_none (by simpa using outside)]
    rfl

/-- A conjunction with `xffff`, a branch by `#-3`, a return and a trap with the vector `xff`. -/
def mixedListing : List (Word × LiteralMode) :=
  [((Instruction.andImmediate .r0 .r7 (-1)).encode, .hex),
    ((Instruction.br .always (Word.narrow (-3) 9)).encode, .dec), (Instruction.ret.encode, .dec),
    ((Instruction.trapTo 0xFF).encode, .hex)]

theorem mixedListing_assembles :
    ∃ m, assemble (listing mixedListing) = .ok (m, []) ∧ m.pc = 0 ∧ m.peek 0 = 0x51FF ∧
      m.peek 1 = 0x0FFD ∧ m.peek 2 = 0xC1C0 ∧ m.peek 3 = 0xF0FF ∧ m.peek 4 = 0 := by
  have built : ∀ p ∈ mixedListing, Built p.1 := by
    rw [mixedListing, List.forall_mem_cons, List.forall_mem_cons, List.forall_mem_cons,
      List.forall_mem_singleton]
    exact ⟨.andImmediate .., @Built.branch .always (-3) _ rfl, .ret, .trapTo _⟩
  obtain ⟨m, assembled, pc, cells, others⟩ := assemble_listing built (by decide)
  exact ⟨m, assembled, pc, cells 0 (by decide), cells 1 (by decide), cells 2 (by decide),
    cells 3 (by decide), others 4 (by decide)⟩

end LC3
