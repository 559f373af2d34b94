import LC3.Proofs.Runs
import LC3.Proofs.Streamed

/-!
# A machine on its way through a streamed execution

A machine with bounded queues follows a streamed execution: some of the input is still to be fed,
and some of the output is still in the queue. It stays on the execution when it completes an
instruction, when its output is flushed and when pending input is fed, and a step that does not
complete is the same step of the streamed execution.
-/

namespace LC3

def Machine.flushed (m : Machine) : Machine := { m with output := .empty m.output.capacity }

namespace Streamed

open Machine (keyboardStatus)

/-- The streamed state that a machine stands for: the queued output counts as written, after what
the host has flushed. -/
def view (m : Machine) (input : Queue) (flushed : List Word) : Streamed :=
  ⟨m.withQueues input (.empty m.output.capacity), flushed ++ m.output.items⟩

section

variable {m m' : Machine} {input : Queue} {pending : List Word} (flushed : List Word)

/-- A step that waits for input is the end of the streamed execution when there is no more. -/
theorem step_view_of_starved (stepped : m.step = (.ok .waitingForInput, m'))
    (starved : input.items = []) :
    (view m input flushed).step = (.ok .waitingForInput, view m input flushed) := by
  obtain ⟨-, waits⟩ := Machine.step_waitingForInput (congrArg Prod.fst stepped)
  have stepped' := waits input (.empty m.output.capacity) starved
  rw [step, view, stepped']
  simp only [Queue.drain, Queue.empty, Machine.withQueues, List.append_nil]

variable (quiet : keyboardStatus ∉ m.stepLoads)
include quiet

/-- A step that completes is the step of the streamed execution. -/
theorem step_view_of_goes {o : Outcome} (going : o.isWaiting = false)
    (stepped : m.step = (.ok o, m')) (fed : input.items = m.input.items ++ pending) :
    ∃ input', input'.items = m'.input.items ++ pending ∧
      m'.output.capacity = m.output.capacity ∧ m'.executed = m.executed + 1 ∧
      (view m input flushed).step = (.ok o, view m' input' flushed) := by
  rcases Machine.step_cases quiet stepped with ⟨waiting, -⟩ | ⟨-, taken, written, exchanged⟩
  · cases going.symm.trans waiting
  · have front : input.items = taken ++ (m'.input.items ++ pending) := by
      rw [fed, exchanged.input_eq, List.append_assoc]
    obtain ⟨input', output', stepped', left, queued⟩ :=
      exchanged.frame input (.empty m.output.capacity) _ front rfl exchanged.written_le
    have traffic := Machine.Traffic.step (m.withQueues input (.empty m.output.capacity))
    obtain ⟨-, capacity⟩ := Queue.items_of_foldlM_push? traffic.output
    rw [stepped'] at capacity
    have same : output'.capacity = m'.output.capacity :=
      capacity.trans exchanged.capacity_eq.symm
    have queued' : output'.items = written := queued
    refine ⟨input', left, exchanged.capacity_eq, exchanged.counted, ?_⟩
    rw [step, view, stepped']
    simp only [Queue.drain, view, Machine.withQueues, same, queued', exchanged.output_eq,
      List.append_assoc]

theorem step_view_of_fault {f : Fault} (stepped : m.step = (.error f, m')) :
    (view m input flushed).step = (.error f, view m' input flushed) := by
  obtain ⟨kept, faults⟩ := Machine.step_fault quiet stepped
  have stepped' := faults input (.empty m.output.capacity) rfl
  rw [step, view, stepped']
  simp only [Queue.drain, Queue.empty, view, Machine.withQueues, kept, List.append_nil]

end

/-- The machine has completed `k` instructions of the streamed execution. Of the input the pending
words are still to be fed, and of the output the flushed words have left the queue. -/
structure Follows (start : Streamed) (k : Nat) (m : Machine) (pending flushed : List Word) :
    Prop where
  ran : ∃ input : Queue, input.items = m.input.items ++ pending ∧
    start.after k = some (view m input flushed)
  counted : m.executed = k
  running : m.running = true
  inlet : 0 < m.input.capacity
  outlet : 0 < m.output.capacity

variable {limit : Option Nat} {start : Streamed} {k : Nat} {m m' : Machine}
variable {pending flushed : List Word}

namespace Follows

/-- The next step reads the keyboard status cell only if the streamed execution does. -/
theorem quiet_step (follows : Follows start k m pending flushed) (quiet : Quiet limit start)
    (allowed : Allows limit k) : keyboardStatus ∉ m.stepLoads := by
  obtain ⟨input, -, ran⟩ := follows.ran
  exact Machine.quiet_withQueues (m := m.withQueues input (.empty m.output.capacity))
    m.input m.output (quiet k _ allowed ran)

theorem step (follows : Follows start k m pending flushed) (quiet : keyboardStatus ∉ m.stepLoads)
    (stepped : m.step = (.ok .executed, m')) : Follows start (k + 1) m' pending flushed := by
  obtain ⟨input, fed, ran⟩ := follows.ran
  obtain ⟨input', fed', capacity, counted, goes⟩ :=
    step_view_of_goes flushed quiet rfl stepped fed
  have inlet : m'.input.capacity = m.input.capacity := by
    have kept := (Machine.Traffic.step m).input_capacity
    rwa [stepped] at kept
  refine ⟨⟨input', fed', after_succ ran goes⟩, ?_, Machine.running_step stepped, ?_, ?_⟩
  · rw [counted, follows.counted]
  · rw [inlet]
    exact follows.inlet
  · rw [capacity]
    exact follows.outlet

/-- A step that does not go on ends the streamed execution in the same way; a step that waits for
input does when no more is pending. -/
theorem ends (follows : Follows start k m pending flushed) (quiet : Quiet limit start)
    (allowed : Allows limit k) {result : Except Fault Outcome} {ending : Ending}
    (stepped : m.step = (result, m')) (stops : ending? result = some ending)
    (starved : result = .ok .waitingForInput → m.input.items ++ pending = []) :
    Ends limit start ending (flushed ++ m'.output.items) := by
  have quiet' := follows.quiet_step quiet allowed
  obtain ⟨input, fed, ran⟩ := follows.ran
  have stop : ∀ s, (view m input flushed).step = (result, s) →
      Ends limit start ending s.written := by
    intro s same
    have result_eq : (view m input flushed).step.1 = result := congrArg Prod.fst same
    have ends := Ends.stopped allowed ran (result_eq ▸ stops)
    rwa [same] at ends
  match result with
  | .error fault => exact stop _ (step_view_of_fault flushed quiet' stepped)
  | .ok .halted =>
    obtain ⟨input', -, -, -, same⟩ := step_view_of_goes flushed quiet' rfl stepped fed
    exact stop _ same
  | .ok .waitingForInput =>
    have exhausted : input.items = [] := fed.trans (starved rfl)
    cases Machine.step_of_isWaiting rfl stepped
    exact stop _ (step_view_of_starved flushed stepped exhausted)
  | .ok .executed | .ok .waitingForOutput => cases stops

/-- Steps that complete stay on the execution. -/
theorem completes {i : Nat} (quiet : Quiet limit start) (done : Machine.Completes i m m')
    (follows : Follows start k m pending flushed) (allowed : ∀ j < i, Allows limit (k + j)) :
    Follows start (k + i) m' pending flushed := by
  induction done generalizing k with
  | refl => exact follows
  | @step i _ _ _ first _ ih =>
    have next := follows.step (follows.quiet_step quiet (allowed 0 (Nat.succ_pos i))) first
    have later : ∀ j < i, Allows limit (k + 1 + j) := by
      intro j less
      rw [Nat.add_assoc, Nat.add_comm 1 j]
      exact allowed (j + 1) (Nat.succ_lt_succ less)
    have reached := ih next later
    rwa [Nat.add_assoc, Nat.add_comm 1 i] at reached

/-- A run makes all its steps, or it stops at one that does not go on. -/
theorem runFor (quiet : Quiet limit start) (j : Nat)
    (follows : Follows start k m pending flushed) (allowed : ∀ i < j, Allows limit (k + i)) :
    ∃ i m₁, Follows start (k + i) m₁ pending flushed ∧ (i = 0 → m₁ = m) ∧
      ((i = j ∧ m.runFor j = (.ok .executed, m₁)) ∨
        (i < j ∧ m₁.step.1 ≠ .ok .executed ∧ m.runFor j = m₁.step)) := by
  obtain ⟨i, m₁, done, ends⟩ := m.exists_last_step j
  have within : i ≤ j := by
    rcases ends with ⟨all, -⟩ | ⟨less, -⟩ <;> omega
  refine ⟨i, m₁, completes quiet done follows fun j less => ?_, ?_, ends⟩
  · exact allowed j (Nat.lt_of_lt_of_le less within)
  · rintro rfl
    cases done
    rfl

/-- Flushing moves the queued output to what has been flushed. -/
theorem flush (follows : Follows start k m pending flushed) :
    Follows start k m.flushed pending (flushed ++ m.output.items) := by
  obtain ⟨input, fed, ran⟩ := follows.ran
  refine ⟨⟨input, fed, ?_⟩, follows.counted, follows.running, follows.inlet, follows.outlet⟩
  rw [ran]
  simp only [view, Machine.flushed, Machine.withQueues, Queue.empty, List.append_nil]

/-- Feeding moves pending words into the input queue. -/
theorem feed {fed rest : List Word} (follows : Follows start k m pending flushed)
    (split : fed ++ rest = pending) (fits : fed.length ≤ m.input.free) :
    Follows start k { m with input := (m.input.fill fed).2 } rest flushed := by
  obtain ⟨input, items, ran⟩ := follows.ran
  refine ⟨⟨input, ?_, ran⟩, follows.counted, follows.running, follows.inlet, follows.outlet⟩
  simp only [Queue.fill, List.take_of_length_le fits, List.append_assoc, split, items]

end Follows

end Streamed

end LC3
