import LC3.Proofs.Faults
import LC3.Proofs.ResultSigns

/-!
# The frame of a step

A step of a running machine changes what its instruction names and no more. A store is to one cell.
Apart from it memory changes in the two keyboard cells only, and only by a load from the status cell,
which is also the only way for an instruction other than the character traps to take input.
-/

namespace LC3

def Instruction.written? (i : Instruction) : Option Register :=
  match i with
  | .jsr _ | .jsrr _ => some .r7
  | .trap v =>
    match TrapRoutine.ofVector? v with
    | some t => if t.readsCharacter then some .r0 else none
    | none => some .r7
  | _ => i.result?

namespace Machine

/-- The address to which the instruction stores, and the register that it stores; the program counter
is past it. -/
def store? (m : Machine) : Instruction → Option (Word × Register)
  | .st s o => some (m.target o, s)
  | .sti s o => some ((m.load (m.target o)).1, s)
  | .str s b o => some (m.baseTarget b o, s)
  | _ => none

/-- From `m` to `m'`, no more is changed than the instruction names, its loads and its store. The
cell of the store receives the register, and a load from the status cell is what changes the two
keyboard cells. -/
structure Frame (i : Instruction) (loads : List Word) (store : Option (Word × Register))
    (m m' : Machine) : Prop where
  stored : ∀ a s, store = some (a, s) → m'.peek a = m.register s
  cells : ∀ a, (∀ s, store ≠ some (a, s)) →
    (keyboardStatus ∈ loads → a ≠ keyboardStatus ∧ a ≠ keyboardData) → m'.peek a = m.peek a
  registers : ∀ r, i.written? ≠ some r → m'.register r = m.register r
  flag : i.result? = none → m'.flag = m.flag
  output : i.routine? ∉ [some .out, some .puts, some .putsp, some .echo] → m'.output = m.output
  input : i.routine? ∉ [some .getc, some .echo] → keyboardStatus ∉ loads → m'.input = m.input
  running : i.routine? ≠ some .halt → m'.running = m.running

variable {m : Machine}

theorem register_of_setRegister (m : Machine) {d r : Register} (w : Word) (other : d ≠ r) :
    (m.setRegister d w).register r = m.register r :=
  (m.register_setRegister d r w).trans (if_neg other)

theorem frame_loadAll (m : Machine) (as : List Word) :
    ∃ memory input, m.loadAll as = { m with memory := memory, input := input } := by
  induction as generalizing m with
  | nil => exact ⟨m.memory, m.input, rfl⟩
  | cons a as ih =>
    obtain ⟨memory₁, input₁, first⟩ := m.frame_load a
    obtain ⟨memory, input, others⟩ := ih (m.load a).2
    refine ⟨memory, input, ?_⟩
    rw [loadAll, others, first]

theorem loadAll_of_quiet {as : List Word} (quiet : keyboardStatus ∉ as) : m.loadAll as = m := by
  induction as with
  | nil => rfl
  | cons a as ih =>
    rw [loadAll, load_of_ne (List.ne_of_not_mem_cons quiet).symm,
      ih (List.not_mem_of_not_mem_cons quiet)]

/-- Loads leave all cells alone but those of the keyboard. -/
theorem peek_loadAll {a : Word} (status : a ≠ keyboardStatus) (data : a ≠ keyboardData)
    (as : List Word) : (m.loadAll as).peek a = m.peek a := by
  induction as generalizing m with
  | nil => rfl
  | cons b as ih =>
    rw [loadAll, ih]
    by_cases polls : b = keyboardStatus
    · rw [load, if_pos polls]
      exact peek_pollKeyboard status data
    · rw [load_of_ne polls]

/-- An instruction does no more to the memory than its loads and its store. -/
theorem memory_perform (m : Machine) (word : Word) (i : Instruction) :
    (m.perform word i).2.memory =
      ((m.store? i).elim (m.loadAll (m.loads i)) fun store =>
        (m.loadAll (m.loads i)).write store.1 (m.register store.2)).memory := by
  cases routine : i.routine? with
  | some t =>
    have silent : m.store? i = none := by
      obtain ⟨v, rfl, -⟩ := Instruction.eq_trap_of_routine? routine
      rfl
    rw [perform_of_routine? word routine, loads_of_routine? routine, silent]
    exact (m.serves_serve t).memory
  | none =>
    cases i with
    | br c o =>
      simp only [perform]
      split <;> rfl
    | ldi d o =>
      simp only [perform, store?, loads, loadAll, Option.elim_none]
      generalize m.load (m.target o) = pointer
      generalize pointer.2.load pointer.1 = loaded
      rfl
    | sti s o =>
      have kept := register_load m (m.target o) s
      simp only [perform, store?, loads, loadAll, Option.elim_some]
      generalize m.load (m.target o) = pointer at kept ⊢
      rw [kept]
      rfl
    | trap v =>
      have unnamed : TrapRoutine.ofVector? v = none := routine
      simp only [perform, loads, unnamed, callVector, store?, Option.isSome_none,
        Bool.false_eq_true, if_false, loadAll, load_of_ne (setWidth_ne_keyboardStatus v)]
      rfl
    | _ => rfl

/-- No register but the one that the instruction writes is changed. -/
theorem register_perform (word : Word) {i : Instruction} {r : Register}
    (other : i.written? ≠ some r) : (m.perform word i).2.register r = m.register r := by
  have apart : ∀ {d}, i.written? = some d → d ≠ r := by
    rintro d writes rfl
    exact other writes
  cases i with
  | br c o =>
    simp only [perform]
    split <;> rfl
  | add d _ _ | and d _ _ | not d _ | lea d _ => exact register_of_setRegister m _ (apart rfl)
  | ld d o =>
    have loaded := register_load m (m.target o) r
    exact (register_of_setRegister _ _ (apart rfl)).trans loaded
  | ldi d o =>
    have pointer := register_load m (m.target o) r
    have loaded := register_load (m.load (m.target o)).2 (m.load (m.target o)).1 r
    simp only [perform]
    generalize m.load (m.target o) = first at pointer loaded ⊢
    generalize first.2.load first.1 = second at loaded ⊢
    exact (register_of_setRegister second.2 _ (apart rfl)).trans (loaded.trans pointer)
  | ldr d b o =>
    have loaded := register_load m (m.baseTarget b o) r
    exact (register_of_setRegister _ _ (apart rfl)).trans loaded
  | sti s o => exact register_load m (m.target o) r
  | jsr _ | jsrr _ => exact register_of_setRegister m _ (apart rfl)
  | trap v =>
    simp only [Instruction.written?] at apart
    simp only [perform]
    split
    · next t routine =>
      rw [routine] at apart
      refine (m.serves_serve t).register r fun reads => ?_
      exact (apart (if_pos reads)).symm
    · next unnamed =>
      rw [unnamed] at apart
      have loaded := register_load (m.setRegister .r7 m.pc) (v.setWidth 16) r
      exact loaded.trans (register_of_setRegister m _ (apart rfl))
  | _ => rfl

theorem perform_frame (m : Machine) (word : Word) (i : Instruction) :
    Frame i (m.loads i) (m.store? i) m (m.perform word i).2 := by
  have memory := m.memory_perform word i
  refine ⟨?_, ?_, fun r => register_perform word, ?_, ?_, ?_, running_perform word⟩
  · intro a s stores
    rw [stores] at memory
    rw [peek, memory]
    exact (Memory.read_write ..).trans (if_pos rfl)
  · intro a elsewhere keyboard
    have loaded : (m.loadAll (m.loads i)).peek a = m.peek a := by
      by_cases polls : keyboardStatus ∈ m.loads i
      · obtain ⟨status, data⟩ := keyboard polls
        exact peek_loadAll status data _
      · rw [loadAll_of_quiet polls]
    cases stores : m.store? i with
    | none =>
      rw [stores] at memory
      rw [peek, memory]
      exact loaded
    | some store =>
      have apart : store.1 ≠ a := fun same => elsewhere store.2 (same ▸ stores)
      rw [stores] at memory
      rw [peek, memory]
      exact ((Memory.read_write ..).trans (if_neg apart)).trans loaded
  · intro without
    rw [flag_perform, without]
    rfl
  · intro silent
    cases routine : i.routine? with
    | some t =>
      rw [perform_of_routine? word routine]
      rw [routine] at silent
      cases t with
      | getc | halt => exact (m.serves_serve _).output rfl (by decide)
      | _ => exact absurd silent (by decide)
    | none =>
      obtain ⟨memory, input, frame⟩ := m.frame_loadAll (m.loads i)
      have plain := Instruction.isService_eq_false routine
      rw [(m.queues_perform word plain).2, frame]
  · intro silent quiet
    cases routine : i.routine? with
    | some t =>
      rw [perform_of_routine? word routine]
      rw [routine] at silent
      cases t with
      | getc | echo => exact absurd silent (by decide)
      | _ => exact (m.serves_serve _).input rfl
    | none =>
      have plain := Instruction.isService_eq_false routine
      rw [(m.queues_perform word plain).1, loadAll_of_quiet quiet]

/-- A step of a running machine leaves alone what its instruction does not name. The loads are those
of the step, with the fetch as the first. -/
theorem step_frame (running : m.running = true) :
    Frame (.decode m.fetch.1) m.stepLoads (m.fetch.2.store? (.decode m.fetch.1)) m m.step.2 := by
  have fetched := m.fetches_fetch
  have register : ∀ r, m.fetch.2.register r = m.register r := fun r =>
    congrArg (·.get r) fetched.registers
  have performed := m.fetch.2.perform_frame m.fetch.1 (.decode m.fetch.1)
  have quiet : keyboardStatus ∉ m.stepLoads →
      m.fetch.2.input = m.input ∧ m.fetch.2.memory = m.memory := fun silent =>
    fetched.quiet (List.ne_of_not_mem_cons silent).symm
  rw [step_eq_perform_fetch running]
  refine ⟨?_, ?_, ?_, ?_, ?_, ?_, ?_⟩
  · intro a s stores
    exact (performed.stored a s stores).trans (register s)
  · intro a elsewhere keyboard
    have kept := performed.cells a elsewhere fun polls => keyboard (List.mem_cons_of_mem _ polls)
    refine kept.trans ?_
    by_cases polls : keyboardStatus ∈ m.stepLoads
    · obtain ⟨status, data⟩ := keyboard polls
      exact fetched.cells a status data
    · rw [peek, (quiet polls).2, peek]
  · intro r other
    exact (performed.registers r other).trans (register r)
  · intro without
    exact (performed.flag without).trans fetched.flag
  · intro silent
    exact (performed.output silent).trans fetched.output
  · intro silent still
    have loads := List.not_mem_of_not_mem_cons still
    exact (performed.input silent loads).trans (quiet still).1
  · intro going
    exact (performed.running going).trans fetched.running

/-- A machine about to store `R1` through the keyboard status cell, with a word to poll. -/
def statusPointer : Machine :=
  { statusFetch.write 0xFDFF 0xB200 with
    pc := 0xFDFF
    registers := Registers.zero.set ⟨1⟩ 0x1234 }

/-- The poll makes the status `x8000`, which is where the store goes. -/
theorem statusPointer_frame :
    statusPointer.running = true ∧ statusPointer.step.2.peek 0x8000 = 0x1234 ∧
      (∀ a, a ∉ [0x8000, keyboardStatus, keyboardData] →
        statusPointer.step.2.peek a = statusPointer.peek a) ∧
      (∀ r, statusPointer.step.2.register r = statusPointer.register r) ∧
      statusPointer.step.2.flag = none ∧
      statusPointer.step.2.output = statusPointer.output := by
  have frame := step_frame (m := statusPointer) rfl
  have fetched : statusPointer.fetch = (0xB200, { statusPointer with pc := keyboardStatus }) := by
    have word : statusPointer.peek 0xFDFF = 0xB200 := (Memory.read_write ..).trans (if_pos rfl)
    rw [fetch_of_ne (show (0xFDFF : Word) ≠ keyboardStatus by decide)]
    exact Prod.ext word rfl
  have waits : statusPointer.input.items = [0x41] := rfl
  obtain ⟨rest, popped, -⟩ := Queue.exists_pop? waits
  have polled : ({ statusPointer with pc := keyboardStatus }.load keyboardStatus).1 = 0x8000 :=
    congrArg Prod.fst (load_keyboardStatus_of_some popped)
  have reached : { statusPointer with pc := keyboardStatus }.target (0 : BitVec 9) =
      keyboardStatus := rfl
  have decoded : Instruction.decode statusPointer.fetch.1 = .sti ⟨1⟩ 0 := by
    rw [fetched]
    decide
  have stores : statusPointer.fetch.2.store? (.sti ⟨1⟩ 0) = some (0x8000, ⟨1⟩) := by
    rw [fetched]
    simp only [store?, reached, polled]
  rw [decoded, stores] at frame
  refine ⟨rfl, frame.stored _ _ rfl, fun a apart => ?_, fun r => frame.registers r nofun,
    frame.flag rfl, frame.output (by decide)⟩
  simp only [List.mem_cons, List.not_mem_nil, or_false, not_or] at apart
  obtain ⟨cell, status, data⟩ := apart
  refine frame.cells a (fun s same => ?_) fun _ => ⟨status, data⟩
  cases same
  exact cell rfl

end Machine

end LC3
