import LC3.Proofs.Decoding

/-!
# What a step needs of the queues

Only the service routines, and loads from the keyboard status cell, touch the queues. A step that
does not poll the keyboard and completes does the same with any queues that begin with the words it
takes and have room for the words it writes. A step that waits changes nothing.
-/

namespace LC3

namespace Instruction

def isService : Instruction → Bool
  | .trap v => (TrapRoutine.ofVector? v).isSome
  | _ => false

end Instruction

namespace Outcome

/-- Whether the step has to be tried again. -/
def isWaiting : Outcome → Bool
  | .waitingForInput | .waitingForOutput => true
  | _ => false

end Outcome

namespace Queue

theorem items_of_pop? {q rest : Queue} {w : Word} (popped : q.pop? = some (w, rest)) :
    q.items = w :: rest.items ∧ rest.capacity = q.capacity := by
  rw [pop?] at popped
  split at popped
  · cases popped
  · next h =>
    cases popped
    exact ⟨h, rfl⟩

theorem exists_pop? {q : Queue} {w : Word} {ws : List Word} (front : q.items = w :: ws) :
    ∃ rest, q.pop? = some (w, rest) ∧ rest.items = ws ∧ rest.capacity = q.capacity := by
  cases h : q.pop? with
  | none =>
    rw [pop?] at h
    split at h
    · next empty => cases front.symm.trans empty
    · cases h
  | some popped =>
    obtain ⟨v, rest⟩ := popped
    obtain ⟨items, capacity⟩ := items_of_pop? h
    cases front.symm.trans items
    exact ⟨rest, rfl, rfl, capacity⟩

theorem length_le_free_of_append? {q q' : Queue} {words : List Word}
    (appended : q.append? words = some q') : words.length ≤ q.free := by
  rw [append?] at appended
  split at appended
  · assumption
  · cases appended

theorem exists_append? {q : Queue} {words : List Word} (room : words.length ≤ q.free) :
    ∃ q', q.append? words = some q' ∧ q'.items = q.items ++ words ∧ q'.capacity = q.capacity :=
  ⟨_, dif_pos room, rfl, rfl⟩

theorem free_le_capacity (q : Queue) : q.free ≤ q.capacity := Nat.sub_le _ _

end Queue

namespace Machine

/-- A text for which there is room is written. -/
theorem writeText_of_room {m : Machine} {text : List Word} (room : text.length ≤ m.output.free) :
    ∃ output : Queue, output.items = m.output.items ++ text ∧
      output.capacity = m.output.capacity ∧
      m.writeText text = { m with output := output }.completed .executed := by
  obtain ⟨output, appended, items, capacity⟩ := Queue.exists_append? room
  have small : ¬m.output.capacity < text.length :=
    Nat.not_lt.mpr (Nat.le_trans room m.output.free_le_capacity)
  exact ⟨output, items, capacity, by rw [writeText, if_neg small, appended]⟩

/-- A text for which there will be room has to wait. -/
theorem writeText_of_no_room {m : Machine} {text : List Word} (full : m.output.free < text.length)
    (small : text.length ≤ m.output.capacity) : m.writeText text = m.retried .waitingForOutput := by
  rw [writeText, if_neg (Nat.not_lt.mpr small), Queue.append?, dif_neg (Nat.not_le.mpr full)]

/-- Writing a text, or not, is a matter of the counters and of the output queue. -/
theorem frame_writeText (m : Machine) (text : List Word) :
    ∃ pc executed output, (m.writeText text).2 =
      { m with pc := pc, executed := executed, output := output } := by
  rw [writeText]
  split
  · exact ⟨m.pc, m.executed, m.output, rfl⟩
  · split
    · next output _ => exact ⟨m.pc, m.executed + 1, output, rfl⟩
    · exact ⟨m.pc - 1, m.executed, m.output, rfl⟩

/-- The addresses from which an instruction loads; the program counter is past it. -/
def loads (m : Machine) : Instruction → List Word
  | .ld _ o => [m.target o]
  | .ldi _ o => [m.target o, (m.load (m.target o)).1]
  | .ldr _ b o => [m.baseTarget b o]
  | .sti _ o => [m.target o]
  | .trap v => if (TrapRoutine.ofVector? v).isSome then [] else [v.setWidth 16]
  | _ => []

/-- The addresses from which a step loads, the address of the instruction first. -/
def stepLoads (m : Machine) : List Word := m.pc :: m.fetch.2.loads (.decode m.fetch.1)

def withQueues (m : Machine) (input output : Queue) : Machine :=
  { m with input := input, output := output }

@[simp] theorem withQueues_self (m : Machine) : m.withQueues m.input m.output = m := rfl

@[simp] theorem target_withQueues {n : Nat} (m : Machine) (i o : Queue) (offset : BitVec n) :
    (m.withQueues i o).target offset = m.target offset := rfl

@[simp] theorem baseTarget_withQueues (m : Machine) (i o : Queue) (b : Register)
    (offset : BitVec 6) : (m.withQueues i o).baseTarget b offset = m.baseTarget b offset := rfl

theorem load_withQueues {m : Machine} {a : Word} (i o : Queue) (quiet : a ≠ keyboardStatus) :
    (m.withQueues i o).load a = (m.peek a, m.withQueues i o) := load_of_ne quiet

/-- Instructions without a service routine neither use the queues nor change them. -/
theorem perform_withQueues {m : Machine} {i : Instruction} (word : Word) (input output : Queue)
    (plain : i.isService = false) (quiet : keyboardStatus ∉ m.loads i) :
    (m.withQueues input output).perform word i =
      ((m.perform word i).1, (m.perform word i).2.withQueues input output) := by
  cases i with
  | br c o =>
    simp only [perform, target_withQueues]
    by_cases taken : c.accepts m.flag = true
    · simp only [taken, withQueues, completed, ↓reduceIte]
    · simp only [taken, withQueues, completed]
      rfl
  | ld d o =>
    have direct : m.target o ≠ keyboardStatus := by simpa [loads, eq_comm] using quiet
    simp only [perform, target_withQueues, load_withQueues _ _ direct, load_of_ne direct]
    rfl
  | ldi d o =>
    simp only [loads, List.mem_cons, List.not_mem_nil, or_false, not_or] at quiet
    have direct : m.target o ≠ keyboardStatus := Ne.symm quiet.1
    have indirect : m.peek (m.target o) ≠ keyboardStatus := by
      rw [load_of_ne direct] at quiet
      exact Ne.symm quiet.2
    simp only [perform, target_withQueues, load_withQueues _ _ direct, load_of_ne direct,
      load_withQueues _ _ indirect, load_of_ne indirect]
    rfl
  | ldr d b o =>
    have direct : m.baseTarget b o ≠ keyboardStatus := by simpa [loads, eq_comm] using quiet
    simp only [perform, baseTarget_withQueues, load_withQueues _ _ direct, load_of_ne direct]
    rfl
  | sti s o =>
    have direct : m.target o ≠ keyboardStatus := by simpa [loads, eq_comm] using quiet
    simp only [perform, target_withQueues, load_withQueues _ _ direct, load_of_ne direct]
    rfl
  | trap v =>
    simp only [Instruction.isService, Option.isSome_eq_false_iff, Option.isNone_iff_eq_none] at plain
    have entry : v.setWidth 16 ≠ keyboardStatus := by simpa [loads, plain, eq_comm] using quiet
    simp only [perform, plain, callVector, load_of_ne entry]
    rfl
  | _ => rfl

theorem executed_load (m : Machine) (a : Word) : (m.load a).2.executed = m.executed := by
  obtain ⟨memory, input, frame⟩ := m.frame_load a
  rw [frame]

theorem completed_eq_ok {m m' : Machine} {o o' : Outcome} (done : m.completed o = (.ok o', m')) :
    o' = o ∧ m'.executed = m.executed + 1 := by
  cases done
  exact ⟨rfl, rfl⟩

/-- An instruction without a service routine completes or faults, and is counted once. -/
theorem perform_plain {m m' : Machine} {word : Word} {i : Instruction} {o : Outcome}
    (plain : i.isService = false) (done : m.perform word i = (.ok o, m')) :
    o = .executed ∧ m'.executed = m.executed + 1 := by
  cases i with
  | br c o =>
    obtain ⟨rfl, counted⟩ := completed_eq_ok done
    refine ⟨rfl, counted.trans ?_⟩
    split <;> rfl
  | ld d o =>
    obtain ⟨rfl, counted⟩ := completed_eq_ok done
    exact ⟨rfl, counted.trans (congrArg (· + 1) (executed_load m (m.target o)))⟩
  | ldr d b o =>
    obtain ⟨rfl, counted⟩ := completed_eq_ok done
    exact ⟨rfl, counted.trans (congrArg (· + 1) (executed_load m (m.baseTarget b o)))⟩
  | sti s o =>
    obtain ⟨rfl, counted⟩ := completed_eq_ok done
    exact ⟨rfl, counted.trans (congrArg (· + 1) (executed_load m (m.target o)))⟩
  | ldi d o =>
    have pointer := executed_load m (m.target o)
    rcases first : m.load (m.target o) with ⟨p, m₁⟩
    have value := executed_load m₁ p
    rcases second : m₁.load p with ⟨w, m₂⟩
    simp only [perform, first, second] at done pointer value
    obtain ⟨rfl, counted⟩ := completed_eq_ok done
    exact ⟨rfl, counted.trans (congrArg (· + 1) (value.trans pointer))⟩
  | trap v =>
    simp only [Instruction.isService, Option.isSome_eq_false_iff, Option.isNone_iff_eq_none] at plain
    simp only [perform, plain] at done
    obtain ⟨rfl, counted⟩ := completed_eq_ok done
    have called := executed_load (m.setRegister .r7 m.pc) (v.setWidth 16)
    exact ⟨rfl, counted.trans (congrArg (· + 1) called)⟩
  | rti => cases done
  | reserved => cases done
  | _ =>
    cases done
    exact ⟨rfl, rfl⟩

/-- By `f`, the machine `m` completes an instruction and becomes `m'`. It takes words from the
front of the input and writes words at the end of the output, and does the same with any other
queues that begin with the words taken and have room for the words written. -/
structure Exchanges (f : Machine → Result) (m m' : Machine) (outcome : Outcome)
    (taken written : List Word) : Prop where
  input_eq : m.input.items = taken ++ m'.input.items
  output_eq : m'.output.items = m.output.items ++ written
  capacity_eq : m'.output.capacity = m.output.capacity
  taken_le : taken.length ≤ 1
  written_le : written.length ≤ m.output.capacity
  counted : m'.executed = m.executed + 1
  frame : ∀ (i q : Queue) (rest : List Word), i.items = taken ++ rest →
    q.capacity = m.output.capacity → written.length ≤ q.free →
    ∃ i' q', f (m.withQueues i q) = (.ok outcome, m'.withQueues i' q') ∧ i'.items = rest ∧
      q'.items = q.items ++ written

/-- What can come of performing something, short of a fault: it waits, with only the program
counter put back, or it exchanges words. -/
inductive Performs (f : Machine → Result) (m m' : Machine) (outcome : Outcome) : Prop
  | waits (waiting : outcome.isWaiting = true) (back : m' = { m with pc := m.pc - 1 })
  | exchanges (taken written : List Word) (going : outcome.isWaiting = false)
      (exchanged : Exchanges f m m' outcome taken written)

variable {m m' : Machine} {o : Outcome}

/-- An operation that writes the same text whatever the queues hold writes all of it or waits. -/
theorem performs_text {f : Machine → Result} (text : List Word)
    (writes : ∀ i q : Queue, q.capacity = m.output.capacity →
      f (m.withQueues i q) = (m.withQueues i q).writeText text)
    (done : f m = (.ok o, m')) : Performs f m m' o := by
  rw [← withQueues_self m, writes _ _ rfl, withQueues_self, writeText] at done
  split at done
  · cases done
  · next small =>
    split at done
    · next output appended =>
      cases done
      obtain ⟨items, capacity⟩ := Queue.append?_items appended
      refine .exchanges [] text rfl
        ⟨rfl, items, capacity, Nat.zero_le 1, Nat.le_of_not_lt small, rfl, ?_⟩
      intro i q rest front same room
      obtain ⟨q', hq', hitems, -⟩ := Queue.exists_append? room
      refine ⟨i, q', ?_, front, hitems⟩
      have fits : ¬(m.withQueues i q).output.capacity < text.length := same ▸ small
      have room' : (m.withQueues i q).output.append? text = some q' := hq'
      rw [writes i q same]
      simp only [writeText, if_neg fits, room']
      rfl
    · cases done
      exact .waits rfl rfl

theorem performs_serve {t : TrapRoutine} (done : m.serve t = (.ok o, m')) :
    Performs (·.serve t) m m' o := by
  cases t with
  | getc =>
    simp only [serve] at done
    split at done
    · next w left popped =>
      cases done
      obtain ⟨front, -⟩ := Queue.items_of_pop? popped
      refine .exchanges [w] [] rfl
        ⟨front, (List.append_nil _).symm, rfl, Nat.le_refl 1, Nat.zero_le _, rfl, ?_⟩
      intro i q rest front' same room
      obtain ⟨i', popped', items, -⟩ := Queue.exists_pop? front'
      refine ⟨i', q, ?_, items, (List.append_nil _).symm⟩
      have popped'' : (m.withQueues i q).input.pop? = some (w, i') := popped'
      simp only [serve, popped'']
      rfl
    · cases done
      exact .waits rfl rfl
  | echo =>
    simp only [serve] at done
    split at done
    · cases done
      exact .waits rfl rfl
    · next w left popped =>
      split at done
      · cases done
        exact .waits rfl rfl
      · next output pushed =>
        cases done
        obtain ⟨front, -⟩ := Queue.items_of_pop? popped
        obtain ⟨items, capacity⟩ := Queue.append?_items pushed
        have fits := Nat.le_trans (Queue.length_le_free_of_append? pushed)
          (Queue.free_le_capacity _)
        refine .exchanges [w] [Word.ofByte w.lowByte] rfl
          ⟨front, items, capacity, Nat.le_refl 1, fits, rfl, ?_⟩
        intro i q rest front' same room
        obtain ⟨i', popped', items', -⟩ := Queue.exists_pop? front'
        obtain ⟨q', pushed', written, -⟩ := Queue.exists_append? room
        refine ⟨i', q', ?_, items', written⟩
        have popped'' : (m.withQueues i q).input.pop? = some (w, i') := popped'
        have pushed'' : (m.withQueues i q).output.push? (Word.ofByte w.lowByte) = some q' := pushed'
        simp only [serve, popped'', pushed'']
        rfl
  | out =>
    refine performs_text [Word.ofByte (m.register .r0).lowByte] ?_ done
    intro i q same
    rfl
  | puts =>
    refine performs_text (m.memory.textAt (m.register .r0) m.textLimit) ?_ done
    intro i q same
    simp only [serve, textLimit, withQueues, same, register]
  | putsp =>
    refine performs_text (m.memory.packedTextAt (m.register .r0) m.textLimit) ?_ done
    intro i q same
    simp only [serve, textLimit, withQueues, same, register]
  | halt =>
    cases done
    refine .exchanges [] [] rfl
      ⟨rfl, (List.append_nil _).symm, rfl, Nat.zero_le 1, Nat.zero_le _, rfl, ?_⟩
    intro i q rest front same room
    exact ⟨i, q, rfl, front, (List.append_nil _).symm⟩

theorem perform_of_isService {i : Instruction} (word : Word) (service : i.isService = true) :
    ∃ t, ∀ m : Machine, m.perform word i = m.serve t := by
  cases i with
  | trap v =>
    obtain ⟨t, routine⟩ := Option.isSome_iff_exists.mp service
    refine ⟨t, fun m => ?_⟩
    simp only [perform, routine]
  | _ => cases service

theorem performs_instruction {word : Word} {i : Instruction} (quiet : keyboardStatus ∉ m.loads i)
    (done : m.perform word i = (.ok o, m')) : Performs (·.perform word i) m m' o := by
  by_cases service : i.isService = true
  · obtain ⟨t, same⟩ := perform_of_isService word service
    rw [same] at done
    simp only [same]
    exact performs_serve done
  · have plain : i.isService = false := Bool.eq_false_iff.mpr service
    have own := perform_withQueues word m.input m.output plain quiet
    rw [withQueues_self, done] at own
    have kept : m' = m'.withQueues m.input m.output := (Prod.mk.inj own).2
    obtain ⟨rfl, counted⟩ := perform_plain plain done
    refine .exchanges [] [] rfl ⟨congrArg (·.input.items) kept.symm, ?_,
      congrArg (·.output.capacity) kept, Nat.zero_le 1, Nat.zero_le _, counted, ?_⟩
    · rw [List.append_nil]
      exact congrArg (·.output.items) kept
    · intro input output rest front same room
      refine ⟨input, output, ?_, front, (List.append_nil _).symm⟩
      rw [perform_withQueues word input output plain quiet, done]

/-- A step that does not poll the keyboard performs the word at the program counter, in the machine
past it, whatever the queues are. -/
theorem step_eq_perform (running : m.running = true) (quiet : keyboardStatus ∉ m.stepLoads) :
    (∀ i q : Queue, (m.withQueues i q).step =
      ({ m with pc := m.pc + 1 }.withQueues i q).perform (m.peek m.pc) (.decode (m.peek m.pc))) ∧
    keyboardStatus ∉ { m with pc := m.pc + 1 }.loads (.decode (m.peek m.pc)) := by
  have fetched : m.pc ≠ keyboardStatus := fun at_status => quiet (by simp [stepLoads, at_status])
  refine ⟨fun i q => step_of_running (m := m.withQueues i q) running fetched, fun loaded => ?_⟩
  apply quiet
  simp only [stepLoads, fetch_of_ne fetched]
  exact List.mem_cons_of_mem _ loaded

theorem running_of_step (done : m.step = (.ok o, m')) : m.running = true := by
  rw [step] at done
  split at done
  · assumption
  · cases done

/-- A step that does not poll the keyboard waits and changes nothing, or exchanges words. -/
theorem step_cases (quiet : keyboardStatus ∉ m.stepLoads) (done : m.step = (.ok o, m')) :
    o.isWaiting = true ∧ m' = m ∨
      o.isWaiting = false ∧ ∃ taken written, Exchanges step m m' o taken written := by
  obtain ⟨same, quiet'⟩ := step_eq_perform (running_of_step done) quiet
  rw [← withQueues_self m, same] at done
  cases performs_instruction quiet' done with
  | waits waiting back =>
    have counter : m.pc + 1 - 1 = m.pc := BitVec.add_sub_cancel m.pc 1
    exact .inl ⟨waiting, by simp only [back, counter]⟩
  | exchanges taken written going exchanged =>
    refine .inr ⟨going, taken, written, exchanged.input_eq, exchanged.output_eq,
      exchanged.capacity_eq, exchanged.taken_le, exchanged.written_le, exchanged.counted, ?_⟩
    intro i q rest front capacity room
    rw [same]
    exact exchanged.frame i q rest front capacity room

end Machine

end LC3
