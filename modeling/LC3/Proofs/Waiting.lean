import LC3.Proofs.ResultSigns
import LC3.Proofs.StepEndings

/-!
# Steps that wait

A step waits only in a service routine, and leaves the machine as it was. It can go on once the host
has done its part. A routine that waited for input goes past that with any word in the queue. A
routine that waited for output had a text that the queue can hold, so that an emptied queue takes
it. The exception is an echo into an output queue that can hold nothing, which waits for ever. Then
there is a word to echo, so that the input queue has another capacity: the host has replaced a queue
of the machine.
-/

namespace LC3

namespace Queue

/-- An empty queue refuses a word only if it can never hold one. -/
theorem isSome_push?_of_empty {q : Queue} (empty : q.items = []) (w : Word) :
    (q.push? w).isSome = true ↔ q.capacity ≠ 0 := by
  have full : q.isFull = true ↔ q.capacity = 0 := by
    rw [isFull, length, empty, decide_eq_true_iff, List.length_nil, Nat.le_zero]
  rw [Option.isSome_iff_ne_none, Ne, push?_eq_none_iff, full]

theorem items_ne_nil_of_push? {q q' : Queue} {w : Word} (pushed : q.push? w = some q') :
    q'.items ≠ [] := by
  obtain ⟨items, -⟩ := append?_items pushed
  simp [items]

theorem capacity_pos_of_items_ne_nil {q : Queue} (present : q.items ≠ []) : 0 < q.capacity :=
  Nat.lt_of_lt_of_le (List.length_pos_iff.mpr present) q.length_le

end Queue

namespace Machine

variable {m : Machine} {t : TrapRoutine}

theorem serve_getc (present : m.input.items ≠ []) : (m.serve .getc).1 = .ok .executed := by
  obtain ⟨w, ws, front⟩ := List.exists_cons_of_ne_nil present
  obtain ⟨rest, popped, -⟩ := Queue.exists_pop? front
  simp only [serve, popped, completed]

/-- Only the routines that read a character wait for one. -/
theorem readsCharacter_of_waitingForInput (waits : (m.serve t).1 = .ok .waitingForInput) :
    t.readsCharacter = true := by
  cases t with
  | getc | echo => rfl
  | halt => cases waits
  | out | puts | putsp =>
    simp only [serve, writeText] at waits
    split at waits
    · cases waits
    · split at waits <;> cases waits

theorem step_after_input (waits : m.step.1 = .ok .waitingForInput) {input : Queue}
    (present : input.items ≠ []) :
    let resumed := (m.withQueues input m.output).step
    (Instruction.decode m.fetch.1).routine? = some .getc ∧ resumed.1 = .ok .executed ∨
      (Instruction.decode m.fetch.1).routine? = some .echo ∧
        resumed.1 = .ok (if m.output.isFull then .waitingForOutput else .executed) := by
  obtain ⟨running, t, routine, served⟩ := exists_routine?_of_isWaiting rfl waits
  have resumed := step_withQueues_of_routine? running routine input m.output
  have reads := readsCharacter_of_waitingForInput served
  cases t with
  | getc => exact .inl ⟨routine, resumed ▸ serve_getc present⟩
  | echo => exact .inr ⟨routine, resumed ▸ serve_echo present⟩
  | _ => cases reads

/-- What a routine that waited for output makes of an emptied queue. -/
theorem serve_after_drain (waits : (m.serve t).1 = .ok .waitingForOutput) :
    let drained := (m.withQueues m.input m.output.drain.2).serve t
    (m.output.capacity ≠ 0 → drained.1 = .ok .executed) ∧
      (m.output.capacity = 0 →
        t = .echo ∧ m.input.items ≠ [] ∧ drained.1 = .ok .waitingForOutput) := by
  constructor
  · intro room
    exact serve_of_empty_output waits (fun _ => Nat.pos_of_ne_zero room) rfl rfl
  · intro none
    rcases serve_waitingForOutput waits with ⟨rfl, present⟩ | ⟨writes, small⟩
    · have full : m.output.drain.2.isFull = true := decide_eq_true (Nat.le_of_eq none)
      have echoed := serve_echo (m := m.withQueues m.input m.output.drain.2) present
      rw [withQueues, if_pos full] at echoed
      exact ⟨rfl, present, echoed⟩
    · -- A text that fits in no room at all is empty, and is written.
      have fits : (m.routineText m t).length ≤ m.output.free := by omega
      obtain ⟨output, -, -, written⟩ := writeText_of_room fits
      rw [serve_eq_writeText writes, written] at waits
      cases waits

theorem step_after_drain (waits : m.step.1 = .ok .waitingForOutput) :
    let drained := (m.withQueues m.input m.output.drain.2).step
    (m.output.capacity ≠ 0 → drained.1 = .ok .executed) ∧
      (m.output.capacity = 0 → (Instruction.decode m.fetch.1).routine? = some .echo ∧
        m.input.capacity ≠ 0 ∧ drained.1 = .ok .waitingForOutput) := by
  obtain ⟨running, t, routine, served⟩ := exists_routine?_of_isWaiting rfl waits
  obtain ⟨room, none⟩ := serve_after_drain (m := { m with pc := m.pc + 1 }) served
  rw [step_withQueues_of_routine? running routine]
  refine ⟨room, fun zero => ?_⟩
  obtain ⟨rfl, present, again⟩ := none zero
  exact ⟨routine, Nat.ne_of_gt (Queue.capacity_pos_of_items_ne_nil present), again⟩

end Machine

/-- After any history from a new machine, both queues have the capacity it was made with. -/
theorem HostCall.capacity_applyAll (capacity : Nat) (calls : List HostCall) :
    let m := applyAll (.withCapacity capacity) calls
    m.input.capacity = capacity ∧ m.output.capacity = capacity := by
  have kept : ∀ m : Machine, (applyAll m calls).input.capacity = m.input.capacity ∧
      (applyAll m calls).output.capacity = m.output.capacity := by
    induction calls with
    | nil => exact fun m => ⟨rfl, rfl⟩
    | cons c calls ih =>
      intro m
      obtain ⟨⟨-, input⟩, -, output⟩ := c.balanced m
      obtain ⟨inputs, outputs⟩ := ih (c.apply m)
      exact ⟨inputs.trans input, outputs.trans output⟩
  exact kept _

namespace Machine

/-- A step that waits changes nothing, so that the next step is the same again. After a wait for
input a word can be pushed if the queue can hold one, and then a step completes in `GETC`, and in
`IN` completes or waits for output. After a wait for output, a step with the output drained completes
if the queue can hold a word. If it cannot, the routine is `IN`, the input queue is of another
capacity, and the step waits again. This does not happen in a history from a new machine with both
its queues. -/
theorem waiting_step_resumes (m : Machine) :
    (∀ o, o = .waitingForInput ∨ o = .waitingForOutput → m.step.1 = .ok o →
      m.step.2 = m ∧ m.step.2.step = m.step) ∧
    (m.step.1 = .ok .waitingForInput → ∀ w,
      ((m.input.push? w).isSome = true ↔ m.input.capacity ≠ 0) ∧
      ∀ input, m.input.push? w = some input →
        let resumed := { m with input := input }.step
        (Instruction.decode m.fetch.1).routine? = some .getc ∧ resumed.1 = .ok .executed ∨
          (Instruction.decode m.fetch.1).routine? = some .echo ∧
            resumed.1 = .ok (if m.output.isFull then .waitingForOutput else .executed)) ∧
    (m.step.1 = .ok .waitingForOutput →
      let drained := { m with output := m.output.drain.2 }.step
      (m.output.capacity ≠ 0 → drained.1 = .ok .executed) ∧
      (m.output.capacity = 0 → (Instruction.decode m.fetch.1).routine? = some .echo ∧
        m.input.capacity ≠ 0 ∧ drained.1 = .ok .waitingForOutput)) ∧
    ∀ capacity calls,
      let m := HostCall.applyAll (withCapacity capacity) calls
      m.input.capacity = m.output.capacity ∧
        (m.step.1 = .ok .waitingForOutput →
          { m with output := m.output.drain.2 }.step.1 = .ok .executed) := by
  refine ⟨?_, ?_, step_after_drain, ?_⟩
  · intro o either done
    have waiting : o.isWaiting = true := by rcases either with rfl | rfl <;> rfl
    have kept : m.step.2 = m := step_of_isWaiting waiting (Prod.ext done rfl)
    exact ⟨kept, congrArg step kept⟩
  · intro waits w
    have empty := (step_waitingForInput waits).1
    exact ⟨Queue.isSome_push?_of_empty empty w, fun input pushed =>
      step_after_input waits (Queue.items_ne_nil_of_push? pushed)⟩
  · intro capacity calls
    obtain ⟨input, output⟩ := HostCall.capacity_applyAll capacity calls
    have alike := input.trans output.symm
    refine ⟨alike, fun waits => ?_⟩
    obtain ⟨room, none⟩ := step_after_drain waits
    by_cases zero : (HostCall.applyAll (withCapacity capacity) calls).output.capacity = 0
    · exact absurd (alike.trans zero) (none zero).2.1
    · exact room zero

/-- A machine that echoes at the last address, with these queues. -/
def lastEcho (input output : Queue) : Machine :=
  { new.write 0xFFFF 0xF023 with
    pc := 0xFFFF
    running := true
    input := input
    output := output }

theorem step_lastEcho (input output : Queue) :
    (lastEcho input output).step = { lastEcho input output with pc := 0xFFFF + 1 }.serve .echo := by
  have fetched : (lastEcho input output).fetch.1 = 0xF023 := by
    rw [fetch_of_ne (show (0xFFFF : Word) ≠ keyboardStatus by decide)]
    simp [lastEcho, peek, write, Memory.read_write]
  exact step_of_routine? rfl (by rw [fetched]; rfl)

theorem lastEcho_resumes :
    let starved := lastEcho (.empty 1) (.empty 1)
    let blocked := lastEcho (.single 0x41) (.single 0x42)
    let going := lastEcho (.single 0x41) (.empty 1)
    starved.step.2 = starved ∧ blocked.step.2 = blocked ∧ going.step.1 = .ok .executed := by
  intro starved blocked going
  have starves : starved.step.1 = .ok .waitingForInput := congrArg Prod.fst (step_lastEcho _ _)
  have blocks : blocked.step.1 = .ok .waitingForOutput := congrArg Prod.fst (step_lastEcho _ _)
  have same : { blocked with output := blocked.output.drain.2 } = going := rfl
  obtain ⟨waits, -, -⟩ := waiting_step_resumes starved
  obtain ⟨waits', -, drained, -⟩ := waiting_step_resumes blocked
  have resumed := (drained blocks).1 (by decide)
  exact ⟨(waits _ (.inl rfl) starves).1, (waits' _ (.inr rfl) blocks).1, same ▸ resumed⟩

/-- A machine that reads a character in the first cell, with queues that hold nothing. -/
def roomlessRead : Machine := { (withCapacity 0).write 0 0xF020 with running := true }

/-- Where a queue can hold nothing, a wait goes on for ever: an echo, after its output queue was
replaced by such a queue, is not helped by a drain, and a read not by a push, which is refused. -/
theorem roomless_steps_keep_waiting :
    let echo := lastEcho (.single 0x41) (.empty 0)
    echo.step.1 = .ok .waitingForOutput ∧
      { echo with output := echo.output.drain.2 }.step.1 ≠ .ok .executed ∧
      roomlessRead.step.1 = .ok .waitingForInput ∧ roomlessRead.input.push? 0x41 = none := by
  intro echo
  have waits : echo.step.1 = .ok .waitingForOutput := congrArg Prod.fst (step_lastEcho _ _)
  have same : { echo with output := echo.output.drain.2 } = echo := rfl
  have read : roomlessRead.fetch.1 = 0xF020 := by
    rw [fetch_of_ne (show (0 : Word) ≠ keyboardStatus by decide)]
    simp [roomlessRead, withCapacity, peek, write, Memory.read_write]
  have starves : roomlessRead.step = { roomlessRead with pc := 1 }.serve .getc :=
    step_of_routine? rfl (by rw [read]; rfl)
  refine ⟨waits, ?_, congrArg Prod.fst starves, rfl⟩
  rw [same, waits]
  intro completed
  cases completed

end Machine

end LC3
