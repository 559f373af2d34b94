import LC3.Proofs.QueueTraffic

/-!
# How a step can end short of completing

A step that waits for input has an empty input queue, and waits with any empty one. A step that
waits for output has words in the output queue, unless the queue can never hold one. A step that
faults does so whatever the queues hold, and leaves them alone.
-/

namespace LC3

namespace Queue

/-- The queue of capacity one that holds this word. -/
def single (w : Word) : Queue := ⟨[w], 1, Nat.le_refl _⟩

theorem pop?_eq_none_iff {q : Queue} : q.pop? = none ↔ q.items = [] := by
  constructor
  · intro refused
    cases items : q.items with
    | nil => rfl
    | cons w rest =>
      obtain ⟨left, popped, -⟩ := exists_pop? items
      cases refused.symm.trans popped
  · intro empty
    rw [pop?]
    split
    · rfl
    · next w rest front => cases front.symm.trans empty

theorem push?_eq_none_iff {q : Queue} {w : Word} : q.push? w = none ↔ q.isFull = true := by
  have room : [w].length ≤ q.free ↔ ¬q.capacity ≤ q.length := by
    rw [free, List.length_singleton]
    omega
  rw [isFull, decide_eq_true_iff]
  constructor
  · intro refused
    by_cases full : q.capacity ≤ q.length
    · exact full
    · obtain ⟨q', appended, -⟩ := exists_append? (room.mpr full)
      cases refused.symm.trans appended
  · intro full
    rw [push?, append?, dif_neg (fun fits => room.mp fits full)]

theorem free_of_items_eq_nil {q : Queue} (empty : q.items = []) : q.free = q.capacity := by
  rw [free, length, empty]
  rfl

end Queue

/-- Whether the instruction is of one of the two classes that are not performed. -/
def Instruction.isBad : Instruction → Bool
  | .rti | .reserved => true
  | _ => false

namespace Machine

variable {m m' : Machine} {i : Instruction}

theorem loads_withQueues (input output : Queue) (quiet : keyboardStatus ∉ m.loads i) :
    (m.withQueues input output).loads i = m.loads i := by
  cases i with
  | ldi d o =>
    simp only [loads, List.mem_cons, not_or] at quiet
    simp only [loads, target_withQueues, load_withQueues _ _ (Ne.symm quiet.1),
      load_of_ne (Ne.symm quiet.1)]
  | _ => rfl

/-- A step polls the keyboard or not, whatever the queues hold. -/
theorem quiet_withQueues (input output : Queue) (quiet : keyboardStatus ∉ m.stepLoads) :
    keyboardStatus ∉ (m.withQueues input output).stepLoads := by
  have fetched : m.pc ≠ keyboardStatus := fun at_status => quiet (by simp [stepLoads, at_status])
  have fetched' : (m.withQueues input output).pc ≠ keyboardStatus := fetched
  rw [stepLoads, fetch_of_ne fetched] at quiet
  rw [stepLoads, fetch_of_ne fetched']
  have loaded : keyboardStatus ∉
      { m with pc := m.pc + 1 }.loads (.decode (m.peek m.pc)) := fun present =>
    quiet (List.mem_cons_of_mem _ present)
  have same := loads_withQueues input output loaded
  intro present
  rcases List.mem_cons.mp present with status | later
  · exact fetched' status.symm
  · exact loaded (same ▸ later)

/-- Only the routine that halts stops the machine. -/
theorem running_perform (word : Word) (other : i.routine? ≠ some .halt) :
    (m.perform word i).2.running = m.running := by
  have loaded : ∀ (n : Machine) (a : Word), (n.load a).2.running = n.running := by
    intro n a
    obtain ⟨memory, input, frame⟩ := n.frame_load a
    rw [frame]
  cases i with
  | br c o =>
    simp only [perform]
    split <;> rfl
  | ld d o => exact loaded m (m.target o)
  | ldi d o =>
    have pointer := loaded m (m.target o)
    have value := loaded (m.load (m.target o)).2 (m.load (m.target o)).1
    simp only [perform]
    generalize m.load (m.target o) = first at pointer value ⊢
    generalize first.2.load first.1 = second at value ⊢
    exact value.trans pointer
  | ldr d b o => exact loaded m (m.baseTarget b o)
  | sti s o => exact loaded m (m.target o)
  | trap v =>
    simp only [perform]
    split
    · next t routine =>
      exact (m.serves_serve t).running fun halt => other (routine.trans (congrArg some halt))
    · exact loaded (m.setRegister .r7 m.pc) (v.setWidth 16)
  | _ => rfl

/-- What a text routine writes does not depend on what the queues hold. -/
theorem serve_of_writesText {t : TrapRoutine} (writes : t.writesText = true)
    (input : Queue) {output : Queue} (same : output.capacity = m.output.capacity) :
    (m.withQueues input output).serve t =
      (m.withQueues input output).writeText (m.routineText m t) := by
  cases t with
  | out => rfl
  | puts | putsp => simp only [serve, routineText, textLimit, withQueues, same, register]
  | _ => cases writes

theorem serve_eq_writeText {t : TrapRoutine} (writes : t.writesText = true) :
    m.serve t = m.writeText (m.routineText m t) :=
  serve_of_writesText writes m.input rfl

theorem writeText_eq_error_iff {text : List Word} {f : Fault} :
    m.writeText text = (.error f, m') ↔
      m' = m ∧ m.output.capacity < text.length ∧
        f = .outputOverflow (m.pc - 1) text.length m.output.capacity := by
  rw [writeText]
  constructor
  · intro done
    split at done
    · next large =>
      cases done
      exact ⟨rfl, large, rfl⟩
    · split at done <;> cases done
  · rintro ⟨rfl, large, rfl⟩
    rw [if_pos large]

/-- A routine faults only with a text that no queue of this capacity can hold. -/
theorem serve_eq_error_iff {t : TrapRoutine} {f : Fault} :
    m.serve t = (.error f, m') ↔
      t.writesText = true ∧ m' = m ∧ m.output.capacity < (m.routineText m t).length ∧
        f = .outputOverflow (m.pc - 1) (m.routineText m t).length m.output.capacity := by
  cases writes : t.writesText with
  | true =>
    rw [serve_eq_writeText writes, writeText_eq_error_iff]
    exact ⟨fun done => ⟨rfl, done⟩, And.right⟩
  | false =>
    refine ⟨fun done => ?_, nofun⟩
    cases t with
    | getc =>
      simp only [serve] at done
      split at done <;> cases done
    | echo =>
      simp only [serve] at done
      split at done
      · cases done
      · split at done <;> cases done
    | halt => cases done
    | _ => cases writes

theorem serve_fault {t : TrapRoutine} {f : Fault} (done : m.serve t = (.error f, m')) :
    m' = m ∧ ∀ input output : Queue, output.capacity = m.output.capacity →
      (m.withQueues input output).serve t = (.error f, m.withQueues input output) := by
  obtain ⟨writes, rfl, large, rfl⟩ := serve_eq_error_iff.mp done
  refine ⟨rfl, fun input output same => ?_⟩
  rw [serve_of_writesText writes _ same]
  exact writeText_eq_error_iff.mpr ⟨rfl, same ▸ large, same ▸ rfl⟩

/-- A fault comes of the classes that are not performed and of the service routines. -/
theorem perform_eq_error_iff {word : Word} {f : Fault} :
    m.perform word i = (.error f, m') ↔
      i.isBad = true ∧ m' = m ∧ f = .badInstruction (m.pc - 1) word ∨
        ∃ t, i.routine? = some t ∧ m.serve t = (.error f, m') := by
  constructor
  · intro done
    cases i with
    | rti | reserved =>
      cases done
      exact .inl ⟨rfl, rfl, rfl⟩
    | trap v =>
      cases routine : TrapRoutine.ofVector? v with
      | some t =>
        simp only [perform, routine] at done
        exact .inr ⟨t, routine, done⟩
      | none =>
        simp only [perform, routine] at done
        cases done
    | _ => cases done
  · rintro (⟨bad, rfl, rfl⟩ | ⟨t, routine, served⟩)
    · cases i with
      | rti | reserved => rfl
      | _ => cases bad
    · rw [perform_of_routine? word routine, served]

theorem perform_fault {word : Word} {f : Fault} (done : m.perform word i = (.error f, m')) :
    m' = m ∧ ∀ input output : Queue, output.capacity = m.output.capacity →
      (m.withQueues input output).perform word i = (.error f, m.withQueues input output) := by
  rcases perform_eq_error_iff.mp done with ⟨bad, rfl, rfl⟩ | ⟨t, routine, served⟩
  · exact ⟨rfl, fun input output _ => perform_eq_error_iff.mpr (.inl ⟨bad, rfl, rfl⟩)⟩
  · obtain ⟨kept, faults⟩ := serve_fault served
    exact ⟨kept, fun input output same =>
      perform_eq_error_iff.mpr (.inr ⟨t, routine, faults input output same⟩)⟩

/-- A routine that waits for input waits with any empty input queue. -/
theorem serve_waitingForInput {t : TrapRoutine} (done : m.serve t = (.ok .waitingForInput, m')) :
    m.input.items = [] ∧ ∀ input output : Queue, input.items = [] →
      (m.withQueues input output).serve t =
        (m.withQueues input output).retried .waitingForInput := by
  have refused : ∀ input output : Queue, input.items = [] →
      (m.withQueues input output).input.pop? = none := fun _ _ empty =>
    Queue.pop?_eq_none_iff.mpr empty
  cases t with
  | getc =>
    simp only [serve] at done
    split at done
    · cases done
    · next empty =>
      refine ⟨Queue.pop?_eq_none_iff.mp empty, fun input output starved => ?_⟩
      simp only [serve, refused input output starved]
  | echo =>
    simp only [serve] at done
    split at done
    · next empty =>
      refine ⟨Queue.pop?_eq_none_iff.mp empty, fun input output starved => ?_⟩
      simp only [serve, refused input output starved]
    · split at done <;> cases done
  | halt => cases done
  | out | puts | putsp =>
    simp only [serve, writeText] at done
    split at done
    · cases done
    · split at done <;> cases done

theorem serve_echo (present : m.input.items ≠ []) :
    (m.serve .echo).1 =
      .ok (if m.output.isFull then .waitingForOutput else .executed) := by
  obtain ⟨w, ws, front⟩ := List.exists_cons_of_ne_nil present
  obtain ⟨rest, popped, -⟩ := Queue.exists_pop? front
  cases pushed : m.output.push? (Word.ofByte w.lowByte) with
  | none =>
    have full := Queue.push?_eq_none_iff.mp pushed
    simp only [serve, popped, pushed, retried, full, if_true]
  | some output =>
    have room : ¬m.output.isFull = true := by
      intro full
      cases pushed.symm.trans (Queue.push?_eq_none_iff.mpr full)
    simp only [serve, popped, pushed, completed, if_neg room]

/-- A routine that waits for output has a text that the queue can hold, or a character to echo. -/
theorem serve_waitingForOutput {t : TrapRoutine}
    (waits : (m.serve t).1 = .ok .waitingForOutput) :
    t = .echo ∧ m.input.items ≠ [] ∨
      t.writesText = true ∧ (m.routineText m t).length ≤ m.output.capacity := by
  cases writes : t.writesText with
  | true =>
    refine .inr ⟨rfl, ?_⟩
    rw [serve_eq_writeText writes, writeText] at waits
    split at waits
    · cases waits
    · next small => exact Nat.le_of_not_lt small
  | false =>
    cases t with
    | getc =>
      simp only [serve] at waits
      split at waits <;> cases waits
    | echo =>
      refine .inl ⟨rfl, fun empty => ?_⟩
      simp only [serve, Queue.pop?_eq_none_iff.mpr empty] at waits
      cases waits
    | halt => cases waits
    | _ => cases writes

/-- With an empty output queue instead, a routine that waited for output completes. For an echo the
queue has to be able to hold a word. -/
theorem serve_of_empty_output {t : TrapRoutine} (waits : (m.serve t).1 = .ok .waitingForOutput)
    (room : m.input.items ≠ [] → 0 < m.output.capacity) {output : Queue}
    (empty : output.items = []) (same : output.capacity = m.output.capacity) :
    ((m.withQueues m.input output).serve t).1 = .ok .executed := by
  have free : output.free = m.output.capacity := (Queue.free_of_items_eq_nil empty).trans same
  rcases serve_waitingForOutput waits with ⟨rfl, present⟩ | ⟨writes, small⟩
  · have unfilled : ¬output.isFull = true := by
      have := room present
      rw [Queue.isFull, decide_eq_true_iff]
      rw [Queue.free] at free
      omega
    have echoed := serve_echo (m := m.withQueues m.input output) present
    rwa [withQueues, if_neg unfilled] at echoed
  · have fits : (m.routineText m t).length ≤ output.free := free ▸ small
    obtain ⟨output', -, -, written⟩ := writeText_of_room (m := m.withQueues m.input output) fits
    rw [serve_of_writesText writes m.input same, written]
    rfl

/-- A routine never waits for an output queue that is empty and can hold a word. -/
theorem serve_ne_waitingForOutput (t : TrapRoutine) (empty : m.output.items = [])
    (room : 0 < m.output.capacity) : (m.serve t).1 ≠ .ok .waitingForOutput := by
  intro waits
  have done := serve_of_empty_output waits (fun _ => room) empty rfl
  rw [withQueues_self] at done
  cases done.symm.trans waits

/-- A routine that waits puts the counter back and does nothing else. -/
theorem serve_of_isWaiting {t : TrapRoutine} {o : Outcome} (waiting : o.isWaiting = true)
    (done : (m.serve t).1 = .ok o) : m.serve t = m.retried o := by
  cases performs_serve (Prod.ext done rfl : m.serve t = (.ok o, _)) with
  | waits _ back => exact Prod.ext done back
  | exchanges _ _ going _ => cases going.symm.trans waiting

/-- A step that serves a routine serves it with any queues. -/
theorem step_withQueues_of_routine? {t : TrapRoutine} (running : m.running = true)
    (routine : (Instruction.decode m.fetch.1).routine? = some t) (input output : Queue) :
    (m.withQueues input output).step =
      ({ m with pc := m.pc + 1 }.withQueues input output).serve t := by
  have quiet := pc_ne_of_routine? routine
  have fetched : (m.withQueues input output).fetch.1 = m.fetch.1 := by
    rw [fetch_of_ne quiet, fetch_of_ne (m := m.withQueues input output) quiet]
    rfl
  exact step_of_routine? (m := m.withQueues input output) running (fetched.symm ▸ routine)

/-- Only a step that serves a routine waits. -/
theorem exists_routine?_of_isWaiting {o : Outcome} (waiting : o.isWaiting = true)
    (done : m.step.1 = .ok o) :
    m.running = true ∧ ∃ t, (Instruction.decode m.fetch.1).routine? = some t ∧
      ({ m with pc := m.pc + 1 }.serve t).1 = .ok o := by
  have running := running_of_step (Prod.ext done rfl : m.step = (.ok o, _))
  cases routine : (Instruction.decode m.fetch.1).routine? with
  | some t => exact ⟨running, t, rfl, step_of_routine? running routine ▸ done⟩
  | none =>
    have plain := Instruction.isService_eq_false routine
    obtain ⟨rfl, -⟩ :=
      perform_plain plain ((step_eq_perform_fetch running).symm.trans (Prod.ext done rfl))
    cases waiting

/-- A step that waits leaves everything as it was. -/
theorem step_of_isWaiting {o : Outcome} (waiting : o.isWaiting = true)
    (done : m.step = (.ok o, m')) : m' = m := by
  obtain ⟨running, t, routine, served⟩ :=
    exists_routine?_of_isWaiting waiting (congrArg Prod.fst done)
  have counter : m.pc + 1 - 1 = m.pc := BitVec.add_sub_cancel m.pc 1
  rw [step_of_routine? running routine, serve_of_isWaiting waiting served] at done
  cases done
  simp only [counter]

/-- A step that waits for input waits again with any empty input queue. -/
theorem step_waitingForInput (done : m.step.1 = .ok .waitingForInput) :
    m.input.items = [] ∧ ∀ input output : Queue, input.items = [] →
      (m.withQueues input output).step =
        (.ok .waitingForInput, m.withQueues input output) := by
  obtain ⟨running, t, routine, served⟩ := exists_routine?_of_isWaiting rfl done
  obtain ⟨empty, waits⟩ := serve_waitingForInput (Prod.ext served rfl)
  refine ⟨empty, fun input output starved => ?_⟩
  have again : (m.withQueues input output).step.1 = .ok .waitingForInput := by
    rw [step_withQueues_of_routine? running routine, waits input output starved]
    rfl
  exact Prod.ext again (step_of_isWaiting rfl (Prod.ext again rfl))

/-- A step never waits for an output queue that is empty and can hold a word. -/
theorem step_ne_waitingForOutput (empty : m.output.items = []) (room : 0 < m.output.capacity) :
    m.step.1 ≠ .ok .waitingForOutput := by
  intro waits
  obtain ⟨-, t, -, served⟩ := exists_routine?_of_isWaiting rfl waits
  exact serve_ne_waitingForOutput (m := { m with pc := m.pc + 1 }) t empty room served

/-- A step that faults does so whatever the queues hold, and leaves the output alone. -/
theorem step_fault {f : Fault} (quiet : keyboardStatus ∉ m.stepLoads)
    (done : m.step = (.error f, m')) :
    m'.output = m.output ∧ ∀ input output : Queue, output.capacity = m.output.capacity →
      (m.withQueues input output).step = (.error f, m'.withQueues input output) := by
  cases running : m.running with
  | false =>
    cases (step_of_stopped running).symm.trans done
    exact ⟨rfl, fun input output _ => step_of_stopped running⟩
  | true =>
    obtain ⟨same, -⟩ := step_eq_perform running quiet
    rw [← withQueues_self m, same] at done
    obtain ⟨rfl, faults⟩ := perform_fault done
    refine ⟨rfl, fun input output capacity => ?_⟩
    rw [same]
    exact faults input output capacity

/-- A machine that has completed an instruction, and not halted, goes on. -/
theorem running_step (done : m.step = (.ok .executed, m')) : m'.running = true := by
  have running := running_of_step done
  have fetched : m.fetch.2.running = true := by
    obtain ⟨memory, input, frame⟩ := m.frame_load m.pc
    have kept : (m.load m.pc).2.running = m.running := by rw [frame]
    exact kept.trans running
  rw [step_eq_perform_fetch running] at done
  have going : (Instruction.decode m.fetch.1).routine? ≠ some .halt := by
    intro halts
    rw [perform_of_routine? _ halts] at done
    cases done
  have performed := running_perform (m := m.fetch.2) m.fetch.1 going
  rw [done] at performed
  exact performed.trans fetched

end Machine

end LC3
