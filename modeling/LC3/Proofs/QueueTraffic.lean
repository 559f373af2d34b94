import LC3.Proofs.QueueFrame
import LC3.Proofs.Strings

/-!
# What passes through the queues in a step

Words leave the input queue for `R0`, in the traps that read a character, and for the keyboard data
cell, with each load of the keyboard status cell that finds one. Words enter the output queue in the
traps that write, one after another and none refused. A string trap writes the whole string or
nothing, and the echoing trap takes a word and writes its low byte or does neither.
-/

namespace LC3

namespace Queue

theorem eq_of_items {q q' : Queue} (items : q.items = q'.items)
    (capacity : q.capacity = q'.capacity) : q = q' := by
  cases q
  cases q'
  cases items
  cases capacity
  rfl

/-- Words that are appended together can be pushed one after another, and none is refused. -/
theorem foldlM_push?_of_append? {q q' : Queue} {words : List Word}
    (appended : q.append? words = some q') : words.foldlM push? q = some q' := by
  obtain ⟨items, capacity⟩ := append?_items appended
  have room := length_le_free_of_append? appended
  induction words generalizing q with
  | nil => exact congrArg some (eq_of_items (by simpa using items.symm) capacity.symm)
  | cons w words ih =>
    have first : [w].length ≤ q.free := Nat.le_trans (Nat.le_add_left 1 words.length) room
    obtain ⟨q₁, pushed, items₁, capacity₁⟩ := exists_append? first
    have room₁ : words.length ≤ q₁.free := by
      simp only [free, length, items₁, capacity₁, List.length_append, List.length_cons,
        List.length_nil] at room ⊢
      omega
    obtain ⟨q₂, appended₂, items₂, capacity₂⟩ := exists_append? room₁
    have same : q₂ = q' := by
      apply eq_of_items
      · rw [items₂, items₁, items, List.append_assoc, List.singleton_append]
      · rw [capacity₂, capacity₁, capacity]
    rw [List.foldlM_cons, push?, pushed]
    exact ih (same ▸ appended₂) (items.trans (by simp [items₁])) (capacity.trans capacity₁.symm)
      room₁

/-- Words pushed one after another come to stand at the end in their order. -/
theorem items_of_foldlM_push? {q q' : Queue} {words : List Word}
    (pushed : words.foldlM push? q = some q') :
    q'.items = q.items ++ words ∧ q'.capacity = q.capacity := by
  induction words generalizing q with
  | nil =>
    cases pushed
    exact ⟨(List.append_nil _).symm, rfl⟩
  | cons w words ih =>
    rw [List.foldlM_cons] at pushed
    obtain ⟨q₁, first, rest⟩ := Option.bind_eq_some_iff.mp pushed
    obtain ⟨items₁, capacity₁⟩ := append?_items first
    obtain ⟨items, capacity⟩ := ih rest
    refine ⟨?_, capacity.trans capacity₁⟩
    rw [items, items₁, List.append_assoc, List.singleton_append]

end Queue

namespace TrapRoutine

/-- Whether the routine writes a text that is known before it is performed. -/
def writesText : TrapRoutine → Bool
  | .out | .puts | .putsp => true
  | _ => false

def readsCharacter : TrapRoutine → Bool
  | .getc | .echo => true
  | _ => false

end TrapRoutine

namespace Instruction

def routine? : Instruction → Option TrapRoutine
  | .trap v => TrapRoutine.ofVector? v
  | _ => none

theorem eq_trap_of_routine? {i : Instruction} {t : TrapRoutine} (routine : i.routine? = some t) :
    ∃ v, i = .trap v ∧ TrapRoutine.ofVector? v = some t := by
  cases i with
  | trap v => exact ⟨v, rfl, routine⟩
  | _ => cases routine

theorem isService_eq_false {i : Instruction} (routine : i.routine? = none) :
    i.isService = false := by
  cases i with
  | trap v => exact congrArg Option.isSome routine
  | _ => rfl

end Instruction

namespace Machine

/-- The word that a load moves out of the input queue. The top bit of the status tells that there is
one, and the data cell holds it. -/
def polled (m : Machine) (a : Word) : List Word :=
  if a = keyboardStatus ∧ (m.load a).1.msb = true then [(m.load a).2.peek keyboardData] else []

def polledBy (m : Machine) : List Word → List Word
  | [] => []
  | a :: as => m.polled a ++ (m.load a).2.polledBy as

def loadAll (m : Machine) : List Word → Machine
  | [] => m
  | a :: as => (m.load a).2.loadAll as

/-- Whether the instruction was completed and the machine goes on. -/
def finishes : Result → Bool
  | (.ok .executed, _) => true
  | _ => false

/-- The words that leave the input queue in a step, from the machine that fetches: those that the
keyboard cells have shown, and the character that a trap has put into `R0`. -/
def received (m : Machine) : List Word :=
  if m.running then
    let i := Instruction.decode m.fetch.1
    m.polled m.pc ++ m.fetch.2.polledBy (m.fetch.2.loads i) ++
      if i.routine?.any (·.readsCharacter) && finishes m.step then [m.step.2.register .r0] else []
  else []

/-- The words that a routine means to write. The echo is of the character that comes to be in `R0`
by the step to `m'`. -/
def routineText (m m' : Machine) : TrapRoutine → List Word
  | .out => [Word.ofByte (m.register .r0).lowByte]
  | .puts => m.memory.textAt (m.register .r0) m.textLimit
  | .putsp => m.memory.packedTextAt (m.register .r0) m.textLimit
  | .echo => [Word.ofByte (m'.register .r0).lowByte]
  | .getc | .halt => []

def emitted (m : Machine) : List Word :=
  match (Instruction.decode m.fetch.1).routine? with
  | some t => if m.running && finishes m.step then m.fetch.2.routineText m.step.2 t else []
  | none => []

/-- The status is zero when nothing waits. -/
theorem load_keyboardStatus_of_none {m : Machine} (empty : m.input.pop? = none) :
    m.load keyboardStatus = (0, m.write keyboardStatus 0) := by
  simp [load, pollKeyboard, empty, write, peek, Memory.read_write]

/-- The status is negative when a word waits, and the word goes to the data cell. -/
theorem load_keyboardStatus_of_some {m : Machine} {w : Word} {rest : Queue}
    (popped : m.input.pop? = some (w, rest)) :
    m.load keyboardStatus = (0x8000,
      { m with
        memory := (m.memory.write keyboardStatus 0x8000).write keyboardData w
        input := rest }) := by
  simp [load, pollKeyboard, popped, peek, Memory.read_write, keyboardStatus, keyboardData]

/-- No vector is the keyboard status cell. -/
theorem setWidth_ne_keyboardStatus (v : BitVec 8) : v.setWidth 16 ≠ keyboardStatus := by
  intro same
  have value : (v.setWidth 16).toNat = 0xFE00 := congrArg BitVec.toNat same
  have := v.isLt
  rw [BitVec.toNat_setWidth] at value
  omega

/-- Apart from its loads, an instruction without a service routine leaves the queues alone. -/
theorem queues_perform (m : Machine) (word : Word) {i : Instruction}
    (plain : i.isService = false) :
    (m.perform word i).2.input = (m.loadAll (m.loads i)).input ∧
      (m.perform word i).2.output = (m.loadAll (m.loads i)).output := by
  cases i with
  | br c o =>
    simp only [perform]
    split <;> exact ⟨rfl, rfl⟩
  | trap v =>
    have unnamed : TrapRoutine.ofVector? v = none := by simpa [Instruction.isService] using plain
    have entry := setWidth_ne_keyboardStatus v
    simp only [perform, loads, unnamed, callVector, load_of_ne entry, Option.isSome_none,
      Bool.false_eq_true, if_false, loadAll]
    exact ⟨rfl, rfl⟩
  | ld d o =>
    simp only [perform, loads, loadAll]
    generalize m.load (m.target o) = loaded
    exact ⟨rfl, rfl⟩
  | ldi d o =>
    simp only [perform, loads, loadAll]
    generalize m.load (m.target o) = pointer
    generalize pointer.2.load pointer.1 = loaded
    exact ⟨rfl, rfl⟩
  | ldr d b o =>
    simp only [perform, loads, loadAll]
    generalize m.load (m.baseTarget b o) = loaded
    exact ⟨rfl, rfl⟩
  | sti s o =>
    simp only [perform, loads, loadAll]
    generalize m.load (m.target o) = pointer
    exact ⟨rfl, rfl⟩
  | _ => exact ⟨rfl, rfl⟩

theorem perform_of_routine? {m : Machine} {i : Instruction} {t : TrapRoutine} (word : Word)
    (routine : i.routine? = some t) : m.perform word i = m.serve t := by
  obtain ⟨v, rfl, named⟩ := Instruction.eq_trap_of_routine? routine
  simp only [perform, named]

theorem loads_of_routine? {m : Machine} {i : Instruction} {t : TrapRoutine}
    (routine : i.routine? = some t) : m.loads i = [] := by
  obtain ⟨v, rfl, named⟩ := Instruction.eq_trap_of_routine? routine
  simp [loads, named]

/-- From `m` to `m'`, no more is changed than the routine is for, apart from the counters. -/
structure Serves (t : TrapRoutine) (m m' : Machine) : Prop where
  memory : m'.memory = m.memory
  flag : m'.flag = m.flag
  register : ∀ r, (t.readsCharacter = true → r ≠ .r0) → m'.register r = m.register r
  input : t.readsCharacter = false → m'.input = m.input
  output : t.writesText = false → t ≠ .echo → m'.output = m.output
  running : t ≠ .halt → m'.running = m.running

theorem Serves.of_counters (t : TrapRoutine) (m : Machine) (pc : Word) (executed : Nat) :
    Serves t m { m with pc := pc, executed := executed } :=
  ⟨rfl, rfl, fun _ _ => rfl, fun _ => rfl, fun _ _ => rfl, fun _ => rfl⟩

theorem serves_serve (m : Machine) (t : TrapRoutine) : Serves t m (m.serve t).2 := by
  have received : ∀ w r, r ≠ .r0 → (m.registers.set .r0 w).get r = m.register r := fun w r other =>
    (Registers.get_set ..).trans (if_neg other.symm)
  cases t with
  | getc =>
    rw [serve]
    split
    · next w rest _ =>
      exact ⟨rfl, rfl, fun r other => received w r (other rfl),
        fun silent => absurd silent (by decide), fun _ _ => rfl, fun _ => rfl⟩
    · exact .of_counters _ m _ _
  | echo =>
    rw [serve]
    split
    · exact .of_counters _ m _ _
    · next w rest _ =>
      split
      · exact .of_counters _ m _ _
      · exact ⟨rfl, rfl, fun r other => received w r (other rfl),
          fun silent => absurd silent (by decide), fun _ other => absurd rfl other, fun _ => rfl⟩
  | out | puts | putsp =>
    simp only [serve]
    obtain ⟨pc, executed, output, frame⟩ := m.frame_writeText _
    rw [frame]
    exact ⟨rfl, rfl, fun _ _ => rfl, fun _ => rfl, fun silent => absurd silent (by decide),
      fun _ => rfl⟩
  | halt =>
    exact ⟨rfl, rfl, fun _ _ => rfl, fun _ => rfl, fun _ _ => rfl, fun other => absurd rfl other⟩

/-- From `m` to `m'`, words leave the front of the input queue, and words are pushed onto the output
queue one after another, none refused. -/
structure Traffic (m m' : Machine) (received emitted : List Word) : Prop where
  input_items : m.input.items = received ++ m'.input.items
  input_capacity : m'.input.capacity = m.input.capacity
  output : emitted.foldlM Queue.push? m.output = some m'.output

variable {m m₁ m' : Machine}

namespace Traffic

theorem of_same (input : m'.input = m.input) (output : m'.output = m.output) :
    Traffic m m' [] [] :=
  ⟨congrArg Queue.items input.symm, congrArg Queue.capacity input, congrArg some output.symm⟩

theorem trans {received received' emitted emitted' : List Word}
    (first : Traffic m m₁ received emitted) (second : Traffic m₁ m' received' emitted') :
    Traffic m m' (received ++ received') (emitted ++ emitted') := by
  refine ⟨?_, second.input_capacity.trans first.input_capacity, ?_⟩
  · rw [first.input_items, second.input_items, List.append_assoc]
  · rw [List.foldlM_append, first.output]
    exact second.output

/-- A load takes the word that it polls. -/
theorem load (m : Machine) (a : Word) : Traffic m (m.load a).2 (m.polled a) [] := by
  by_cases status : a = keyboardStatus
  · subst status
    cases popped : m.input.pop? with
    | none =>
      have loaded := load_keyboardStatus_of_none popped
      have shown : m.polled keyboardStatus = [] := by
        rw [polled, loaded]
        exact if_neg fun both => absurd both.2 (show ¬(0 : Word).msb = true by decide)
      rw [shown, loaded]
      exact of_same rfl rfl
    | some front =>
      obtain ⟨items, capacity⟩ := Queue.items_of_pop? popped
      have loaded := load_keyboardStatus_of_some popped
      have shown : m.polled keyboardStatus = [front.1] := by
        rw [polled, loaded, if_pos ⟨rfl, show (0x8000 : Word).msb = true by decide⟩]
        simp [peek, Memory.read_write]
      rw [shown, loaded]
      exact ⟨items, capacity, rfl⟩
  · have quiet : m.polled a = [] := if_neg fun both => status both.1
    rw [quiet, load_of_ne status]
    exact of_same rfl rfl

/-- The words of a whole text are pushed when it is written, and none when it is not. -/
theorem writeText (m : Machine) (text : List Word) :
    Traffic m (m.writeText text).2 [] (if finishes (m.writeText text) then text else []) := by
  rw [Machine.writeText]
  split
  · exact of_same rfl rfl
  · split
    · next output appended =>
      exact ⟨rfl, rfl, Queue.foldlM_push?_of_append? appended⟩
    · exact of_same rfl rfl

theorem serve (m : Machine) (t : TrapRoutine) :
    Traffic m (m.serve t).2
      (if t.readsCharacter && finishes (m.serve t) then [(m.serve t).2.register .r0] else [])
      (if finishes (m.serve t) then m.routineText (m.serve t).2 t else []) := by
  cases t with
  | getc =>
    cases popped : m.input.pop? with
    | none =>
      simp only [Machine.serve, popped]
      exact of_same rfl rfl
    | some front =>
      obtain ⟨items, capacity⟩ := Queue.items_of_pop? popped
      simp only [Machine.serve, popped]
      refine ⟨?_, capacity, rfl⟩
      simpa [finishes, completed, TrapRoutine.readsCharacter, register, setRegister,
        Registers.get_set] using items
  | echo =>
    cases popped : m.input.pop? with
    | none =>
      simp only [Machine.serve, popped]
      exact of_same rfl rfl
    | some front =>
      obtain ⟨items, capacity⟩ := Queue.items_of_pop? popped
      cases pushed : m.output.push? (Word.ofByte front.1.lowByte) with
      | none =>
        simp only [Machine.serve, popped, pushed]
        exact of_same rfl rfl
      | some output =>
        simp only [Machine.serve, popped, pushed]
        refine ⟨?_, capacity, ?_⟩
        · simpa [finishes, completed, TrapRoutine.readsCharacter, register, setRegister,
            Registers.get_set] using items
        · simpa [finishes, completed, routineText, register, setRegister, Registers.get_set]
            using pushed
  | out => exact writeText m _
  | puts => exact writeText m _
  | putsp => exact writeText m _
  | halt => exact of_same rfl rfl

/-- Loads take the words that they poll. -/
theorem loadAll (m : Machine) (as : List Word) :
    Traffic m (m.loadAll as) (m.polledBy as) [] := by
  induction as generalizing m with
  | nil => exact of_same rfl rfl
  | cons a as ih => exact (load m a).trans (ih (m.load a).2)

/-- An instruction takes the words that its loads poll and the character that it reads, and pushes
the text that it writes. -/
theorem perform (m : Machine) (word : Word) (i : Instruction) :
    Traffic m (m.perform word i).2
      (m.polledBy (m.loads i) ++
        if i.routine?.any (·.readsCharacter) && finishes (m.perform word i) then
          [(m.perform word i).2.register .r0] else [])
      (match i.routine? with
        | some t =>
          if finishes (m.perform word i) then m.routineText (m.perform word i).2 t else []
        | none => []) := by
  cases routine : i.routine? with
  | some t =>
    rw [perform_of_routine? word routine, loads_of_routine? routine]
    exact serve m t
  | none =>
    obtain ⟨input, output⟩ := queues_perform m word (Instruction.isService_eq_false routine)
    have taken := (loadAll m (m.loads i)).trans (of_same input output)
    simpa using taken

theorem step (m : Machine) : Traffic m m.step.2 m.received m.emitted := by
  cases running : m.running with
  | false =>
    have silent : m.emitted = [] := by
      rw [emitted, running]
      split <;> rfl
    rw [received, running, silent, step_of_stopped running]
    exact of_same rfl rfl
  | true =>
    have stepped := step_eq_perform_fetch running
    have loaded := load m m.pc
    have fetched : Traffic m m.fetch.2 (m.polled m.pc) [] :=
      ⟨loaded.input_items, loaded.input_capacity, loaded.output⟩
    have both := fetched.trans (perform m.fetch.2 m.fetch.1 (.decode m.fetch.1))
    rw [← stepped] at both
    simpa only [received, emitted, running, if_true, Bool.true_and, List.nil_append,
      List.append_assoc] using both

end Traffic

/-- What a text routine writes, in full. -/
def WholeText (m : Machine) (text : List Word) : TrapRoutine → Prop
  | .out => text = [Word.ofByte (m.register .r0).lowByte]
  | .puts => m.memory.IsString false (m.register .r0) text
  | .putsp => m.memory.IsString true (m.register .r0) text
  | _ => False

/-- A machine that fetches a trap does not fetch it from a keyboard cell: the status is either zero
or its top bit. -/
theorem pc_ne_of_routine? {t : TrapRoutine}
    (routine : (Instruction.decode m.fetch.1).routine? = some t) : m.pc ≠ keyboardStatus := by
  intro at_status
  have status : m.fetch.1 = 0 ∨ m.fetch.1 = 0x8000 := by
    rw [fetch, at_status]
    cases popped : m.input.pop? with
    | none => exact .inl (by rw [load_keyboardStatus_of_none popped])
    | some front => exact .inr (by rw [load_keyboardStatus_of_some popped])
  rcases status with word | word <;>
  · rw [word] at routine
    cases routine

theorem step_of_routine? {t : TrapRoutine} (running : m.running = true)
    (routine : (Instruction.decode m.fetch.1).routine? = some t) :
    m.step = { m with pc := m.pc + 1 }.serve t := by
  rw [step_eq_perform_fetch running, perform_of_routine? _ routine,
    fetch_of_ne (pc_ne_of_routine? routine)]

theorem writeText_cases (m : Machine) (text : List Word) :
    (m.writeText text).2.output = m.output ∨
      text.length ≤ m.output.capacity ∧
        text.foldlM Queue.push? m.output = some (m.writeText text).2.output := by
  rw [writeText]
  split
  · exact .inl rfl
  · next small =>
    split
    · next output appended =>
      exact .inr ⟨Nat.le_of_not_lt small, Queue.foldlM_push?_of_append? appended⟩
    · exact .inl rfl

/-- A step that writes a text pushes all of it, each word with success, or leaves the output as it
is. -/
theorem step_writesText {t : TrapRoutine} (running : m.running = true)
    (routine : (Instruction.decode m.fetch.1).routine? = some t) (writes : t.writesText = true) :
    m.step.2.output = m.output ∨
      ∃ text, m.WholeText text t ∧ text.foldlM Queue.push? m.output = some m.step.2.output := by
  rw [step_of_routine? running routine]
  cases t with
  | out =>
    refine (writeText_cases { m with pc := m.pc + 1 } _).imp_right fun written => ?_
    exact ⟨_, rfl, written.2⟩
  | puts =>
    refine (writeText_cases { m with pc := m.pc + 1 } _).imp_right fun written => ?_
    exact ⟨_, Memory.isString_textAt _ _ (Nat.lt_succ_of_le written.1), written.2⟩
  | putsp =>
    refine (writeText_cases { m with pc := m.pc + 1 } _).imp_right fun written => ?_
    exact ⟨_, Memory.isString_packedTextAt _ _ (Nat.lt_succ_of_le written.1), written.2⟩
  | _ => cases writes

/-- The echoing trap takes a word into `R0` and pushes its low byte with success, or leaves both
queues as they are. -/
theorem step_echo (running : m.running = true)
    (routine : (Instruction.decode m.fetch.1).routine? = some .echo) :
    (m.step.2.input = m.input ∧ m.step.2.output = m.output) ∨
      ∃ w, m.input.items = w :: m.step.2.input.items ∧ m.step.2.register .r0 = w ∧
        m.output.push? (Word.ofByte w.lowByte) = some m.step.2.output := by
  rw [step_of_routine? running routine]
  cases popped : m.input.pop? with
  | none =>
    simp only [serve, popped]
    exact .inl ⟨rfl, rfl⟩
  | some front =>
    obtain ⟨items, -⟩ := Queue.items_of_pop? popped
    cases pushed : m.output.push? (Word.ofByte front.1.lowByte) with
    | none =>
      simp only [serve, popped, pushed]
      exact .inl ⟨rfl, rfl⟩
    | some output =>
      simp only [serve, popped, pushed]
      refine .inr ⟨front.1, items, ?_, pushed⟩
      simp [completed, register, setRegister, Registers.get_set]

end Machine

end LC3
