import LC3.Proofs.Effects
import LC3.Proofs.Runs

/-!
# Steps that fault

A step of a stopped machine does nothing. A running machine faults at a word of a class that is not
performed, and at a text that its output queue can never hold. By then the fetch is done, which moves
the program counter and polls the keyboard if the counter was at the status cell, and nothing else
is. A run ends with the first fault it comes to.
-/

namespace LC3

namespace Instruction

theorem opcode_decode (w : Word) : (decode w).opcode = Opcode.ofWord w := by
  rw [decode]
  cases Opcode.ofWord w with
  | jsr =>
    dsimp only
    split <;> rfl
  | _ => rfl

/-- The two classes that are not performed have the codes eight and thirteen. -/
theorem isBad_decode_iff (w : Word) :
    (decode w).isBad = true ↔ w.field 12 4 = 8 ∨ w.field 12 4 = 13 := by
  have coded : ∀ c : BitVec 4, (Opcode.ofCode c = .rti ↔ c = 8) ∧
      (Opcode.ofCode c = .reserved ↔ c = 13) := by decide
  have bad : ∀ i : Instruction, i.isBad = true ↔ i.opcode = .rti ∨ i.opcode = .reserved := by
    intro i
    cases i <;> simp [isBad, opcode]
  obtain ⟨eight, thirteen⟩ := coded (w.field 12 4)
  rw [bad, opcode_decode, Opcode.ofWord, eight, thirteen]

end Instruction

namespace Machine

variable {m m' : Machine} {f : Fault}

/-- From `m` to `m'`, a word is fetched and no more. -/
structure Fetches (m m' : Machine) : Prop where
  pc : m'.pc = m.pc + 1
  registers : m'.registers = m.registers
  flag : m'.flag = m.flag
  running : m'.running = m.running
  executed : m'.executed = m.executed
  output : m'.output = m.output
  quiet : m.pc ≠ keyboardStatus → m'.input = m.input ∧ m'.memory = m.memory
  polls : m.pc = keyboardStatus →
    m'.input = m.pollKeyboard.input ∧ m'.memory = m.pollKeyboard.memory
  cells : ∀ a, a ≠ keyboardStatus → a ≠ keyboardData → m'.peek a = m.peek a

theorem peek_pollKeyboard {a : Word} (status : a ≠ keyboardStatus) (data : a ≠ keyboardData) :
    m.pollKeyboard.peek a = m.peek a := by
  rw [peek_pollKeyboard_eq, if_neg data, seen, if_neg status]

theorem fetches_fetch (m : Machine) : Fetches m m.fetch.2 := by
  by_cases quiet : m.pc = keyboardStatus
  · have fetched : m.fetch.2 = { m.pollKeyboard with pc := m.pollKeyboard.pc + 1 } := by
      rw [fetch, load, if_pos quiet]
    rw [pollKeyboard_eq] at fetched
    rw [fetched]
    exact ⟨rfl, rfl, rfl, rfl, rfl, rfl, fun elsewhere => absurd quiet elsewhere,
      fun _ => ⟨rfl, rfl⟩, fun _ => peek_pollKeyboard⟩
  · rw [fetch_of_ne quiet]
    exact ⟨rfl, rfl, rfl, rfl, rfl, rfl, fun _ => ⟨rfl, rfl⟩, fun status => absurd status quiet,
      fun _ _ _ => rfl⟩

/-- What a running machine has fetched is not performed, or is a text that the output queue can
never hold. -/
inductive FaultsWith (m : Machine) : Fault → Prop
  | badInstruction (bad : (Instruction.decode m.fetch.1).isBad = true) :
      FaultsWith m (.badInstruction m.pc m.fetch.1)
  | outputOverflow {t : TrapRoutine} (routine : (Instruction.decode m.fetch.1).routine? = some t)
      (writes : t.writesText = true) (large : m.output.capacity < (m.routineText m t).length) :
      FaultsWith m (.outputOverflow m.pc (m.routineText m t).length m.output.capacity)

/-- A running machine faults after the fetch and does nothing more. -/
theorem step_eq_error_iff (running : m.running = true) :
    m.step = (.error f, m') ↔ m' = m.fetch.2 ∧ m.FaultsWith f := by
  have counter : m.fetch.2.pc - 1 = m.pc := by
    rw [m.fetches_fetch.pc]
    exact BitVec.add_sub_cancel m.pc 1
  have text : ∀ t, (Instruction.decode m.fetch.1).routine? = some t →
      m.fetch.2.routineText m.fetch.2 t = m.routineText m t := by
    intro t routine
    rw [fetch_of_ne (pc_ne_of_routine? routine)]
    cases t <;> rfl
  rw [step_eq_perform_fetch running, perform_eq_error_iff, counter]
  constructor
  · rintro (⟨bad, rfl, rfl⟩ | ⟨t, routine, served⟩)
    · exact ⟨rfl, .badInstruction bad⟩
    · obtain ⟨writes, rfl, large, rfl⟩ := serve_eq_error_iff.mp served
      rw [text t routine, m.fetches_fetch.output] at large
      rw [counter, text t routine, m.fetches_fetch.output]
      exact ⟨rfl, .outputOverflow routine writes large⟩
  · rintro ⟨rfl, bad | @⟨t, routine, writes, large⟩⟩
    · exact .inl ⟨bad, rfl, rfl⟩
    · refine .inr ⟨t, routine, serve_eq_error_iff.mpr ⟨writes, rfl, ?_, ?_⟩⟩
      · rwa [text t routine, m.fetches_fetch.output]
      · rw [counter, text t routine, m.fetches_fetch.output]

theorem fault_iff (running : m.running = true) : m.step.1 = .error f ↔ m.FaultsWith f := by
  constructor
  · intro done
    exact ((step_eq_error_iff running).mp (Prod.ext done rfl)).2
  · intro how
    exact congrArg Prod.fst ((step_eq_error_iff running).mpr ⟨rfl, how⟩)

/-- A fault of a running machine leaves it as the fetch did. -/
theorem fetches_of_fault (running : m.running = true) (done : m.step = (.error f, m')) :
    Fetches m m' := by
  obtain ⟨rfl, -⟩ := (step_eq_error_iff running).mp done
  exact m.fetches_fetch

theorem badInstruction_iff (running : m.running = true) (a w : Word) :
    m.step.1 = .error (.badInstruction a w) ↔
      a = m.pc ∧ w = m.fetch.1 ∧ (w.field 12 4 = 8 ∨ w.field 12 4 = 13) := by
  rw [fault_iff running]
  constructor
  · intro faults
    cases faults with
    | badInstruction bad => exact ⟨rfl, rfl, (Instruction.isBad_decode_iff _).mp bad⟩
  · rintro ⟨rfl, rfl, coded⟩
    exact .badInstruction ((Instruction.isBad_decode_iff _).mpr coded)

theorem outputOverflow_iff (running : m.running = true) (a : Word) (length capacity : Nat) :
    m.step.1 = .error (.outputOverflow a length capacity) ↔
      a = m.pc ∧ capacity = m.output.capacity ∧ capacity < length ∧
        ∃ t, (Instruction.decode m.fetch.1).routine? = some t ∧
          (t = .out ∨ t = .puts ∨ t = .putsp) ∧ length = (m.routineText m t).length := by
  have text : ∀ t : TrapRoutine, t.writesText = true ↔ t = .out ∨ t = .puts ∨ t = .putsp := by
    intro t
    cases t <;> decide
  rw [fault_iff running]
  constructor
  · intro faults
    cases faults with
    | outputOverflow routine writes large =>
      exact ⟨rfl, rfl, large, _, routine, (text _).mp writes, rfl⟩
  · rintro ⟨rfl, rfl, large, t, routine, writes, rfl⟩
    exact .outputOverflow routine ((text t).mpr writes) large

/-- A run faults just if a step within the limit does and every step before it has completed. -/
theorem run_eq_error_iff (limit : Option Nat) :
    m.run limit = (.error f, m') ↔
      ∃ k s, k < limit.getD longestRun ∧ Completes k m.start s ∧ s.step = (.error f, m') :=
  runFor_eq_iff nofun

theorem running_of_run_fault {limit : Option Nat} (ran : m.run limit = (.error f, m')) :
    m'.running = true := by
  obtain ⟨k, s, -, done, last⟩ := (run_eq_error_iff limit).mp ran
  have running := done.running rfl
  exact (fetches_of_fault running last).running.trans running

/-- A fault leaves the machine intact. A stopped machine does not step at all. A running machine
faults at the two classes that are not performed and at texts longer than the output queue, in both
cases with no more done than the fetch. A run ends with the first step that faults, and the machine
still runs. -/
theorem step_faults (m : Machine) :
    (m.step.1 = .error .notRunning ↔ m.running = false) ∧
    (m.running = false → m.step.2 = m) ∧
    (∀ a w, m.step.1 = .error (.badInstruction a w) ↔
      m.running = true ∧ a = m.pc ∧ w = m.fetch.1 ∧ (w.field 12 4 = 8 ∨ w.field 12 4 = 13)) ∧
    (∀ a length capacity, m.step.1 = .error (.outputOverflow a length capacity) ↔
      m.running = true ∧ a = m.pc ∧ capacity = m.output.capacity ∧ capacity < length ∧
        ∃ t, (Instruction.decode m.fetch.1).routine? = some t ∧
          (t = .out ∨ t = .puts ∨ t = .putsp) ∧ length = (m.routineText m t).length) ∧
    m.step.1 ≠ .error .running ∧
    (∀ f, f ≠ .notRunning → m.step.1 = .error f → Fetches m m.step.2) ∧
    ∀ limit f m',
      (m.run limit = (.error f, m') ↔
        ∃ k s, k < limit.getD longestRun ∧ Completes k m.start s ∧ s.step = (.error f, m')) ∧
      (m.run limit = (.error f, m') → m'.running = true) := by
  have runs := fun limit f m' =>
    And.intro (@run_eq_error_iff m m' f limit) (@running_of_run_fault m m' f limit)
  cases running : m.running with
  | false =>
    rw [step_of_stopped running]
    refine ⟨⟨fun _ => rfl, fun _ => rfl⟩, fun _ => rfl, fun a w => ⟨nofun, nofun⟩,
      fun a length capacity => ⟨nofun, nofun⟩, nofun, ?_, runs⟩
    rintro f other ⟨⟩
    exact absurd rfl other
  | true =>
    refine ⟨⟨?_, nofun⟩, nofun, ?_, ?_, ?_, ?_, runs⟩
    · rw [fault_iff running]
      exact nofun
    · intro a w
      rw [badInstruction_iff running]
      exact ⟨fun how => ⟨rfl, how⟩, And.right⟩
    · intro a length capacity
      rw [outputOverflow_iff running]
      exact ⟨fun how => ⟨rfl, how⟩, And.right⟩
    · rw [Ne, fault_iff running]
      exact nofun
    · intro f _ done
      exact fetches_of_fault running (Prod.ext done rfl)

/-- A machine about to fetch from the keyboard status cell, with a word to poll. The status that it
fetches is of a class that is not performed. -/
def statusFetch : Machine :=
  { withCapacity 1 with pc := keyboardStatus, running := true, input := ⟨[0x41], 1, by decide⟩ }

theorem statusFetch_faults :
    statusFetch.step.1 = .error (.badInstruction 0xFE00 0x8000) ∧
      statusFetch.step.2.pc = 0xFE01 ∧ statusFetch.step.2.input.items = [] ∧
      statusFetch.step.2.peek 0xFE02 = 0x41 := by
  obtain ⟨-, -, bad, -, -, frame, -⟩ := step_faults statusFetch
  have waits : statusFetch.input.items = [0x41] := rfl
  obtain ⟨rest, popped, items, -⟩ := Queue.exists_pop? waits
  have loaded := load_keyboardStatus_of_some popped
  have word : statusFetch.fetch.1 = 0x8000 := congrArg Prod.fst loaded
  have polled : statusFetch.pollKeyboard = _ := congrArg Prod.snd loaded
  have faults := (bad 0xFE00 0x8000).mpr ⟨rfl, rfl, word.symm, by decide⟩
  have fetched := frame (.badInstruction 0xFE00 0x8000) nofun faults
  obtain ⟨input, memory⟩ := fetched.polls rfl
  refine ⟨faults, fetched.pc, ?_, ?_⟩
  · rw [input, polled]
    exact items
  · rw [peek, memory, polled]
    exact (Memory.read_write ..).trans (if_pos rfl)

end Machine

end LC3
