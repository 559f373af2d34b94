import LC3.Proofs.Faults

/-!
# Limited runs

A step counts one instruction or none, by what it answers. So the counter tells how far a run has
come: a run that is still going at its limit has completed as many instructions as the limit says, and
any other run as many as there were in front of its last step, and one more if that halted the machine.
Nothing else is kept from one run to the next, and a limit may be split.
-/

namespace LC3

/-- How many instructions a step with this answer has completed. The one that halts counts. -/
def instructionCount : Except Fault Outcome → Nat
  | .ok .executed | .ok .halted => 1
  | _ => 0

theorem instructionCount_le (answer : Except Fault Outcome) : instructionCount answer ≤ 1 := by
  unfold instructionCount
  split <;> decide

namespace Machine

variable {m m' : Machine}

theorem executed_serve {t : TrapRoutine} {o : Outcome} (going : o.isWaiting = false)
    (done : m.serve t = (.ok o, m')) : m'.executed = m.executed + 1 := by
  cases performs_serve done with
  | waits waiting _ => cases going.symm.trans waiting
  | exchanges _ _ _ exchanged => exact exchanged.counted

/-- A step that neither waits nor faults is counted. -/
theorem executed_of_step {o : Outcome} (going : o.isWaiting = false)
    (done : m.step = (.ok o, m')) : m'.executed = m.executed + 1 := by
  have running := running_of_step done
  cases routine : (Instruction.decode m.fetch.1).routine? with
  | some t =>
    have served : { m with pc := m.pc + 1 }.serve t = (.ok o, m') :=
      (step_of_routine? running routine).symm.trans done
    exact executed_serve (m := { m with pc := m.pc + 1 }) going served
  | none =>
    have plain := Instruction.isService_eq_false routine
    rw [step_eq_perform_fetch running] at done
    rw [(perform_plain plain done).2, m.fetches_fetch.executed]

/-- The counter moves by what the answer of the step says. -/
theorem executed_step (m : Machine) :
    m.step.2.executed = m.executed + instructionCount m.step.1 := by
  cases answer : m.step.1 with
  | error f =>
    cases running : m.running with
    | false =>
      rw [step_of_stopped running]
      rfl
    | true => exact (fetches_of_fault running (Prod.ext answer rfl)).executed
  | ok o =>
    cases waiting : o.isWaiting with
    | true =>
      have kept : m.step.2 = m := step_of_isWaiting waiting (Prod.ext answer rfl)
      rw [kept]
      cases o with
      | waitingForInput | waitingForOutput => rfl
      | _ => cases waiting
    | false =>
      rw [executed_of_step waiting (Prod.ext answer rfl)]
      cases o with
      | executed | halted => rfl
      | _ => cases waiting

theorem Completes.executed {k : Nat} (done : Completes k m m') :
    m'.executed = m.executed + k := by
  induction done with
  | refl => rfl
  | step first _ ih =>
    rw [ih, executed_of_step rfl first]
    omega

theorem start_of_running (running : m.running = true) : m.start = m := by
  rw [start, ← running]

/-- A run that is at its limit goes on as a run with the rest of the limit. -/
theorem run_add (m : Machine) (n k : Nat) :
    m.run (some (n + k)) =
      match m.run (some n) with
      | (.ok .executed, m') => m'.run (some k)
      | ended => ended := by
  obtain ⟨j, s, done, ⟨rfl, all⟩ | ⟨less, stops, last⟩⟩ := exists_last_step m.start n
  · have ran : m.run (some j) = (.ok .executed, s) := all
    have again : s.start = s := start_of_running (done.running rfl)
    rw [ran]
    simp only [run, Option.getD_some, again]
    exact runFor_of_completes done k
  · have ran : m.run (some n) = s.step := last
    have ended : m.run (some (n + k)) = s.step := by
      obtain ⟨rest, rfl⟩ := Nat.exists_eq_add_of_lt less
      have split : j + rest + 1 + k = j + (rest + k + 1) := by omega
      simp only [run, Option.getD_some]
      rw [split, runFor_of_completes done, runFor_of_stop stops]
    rw [ran, ended]
    split
    · next stepped => exact absurd (congrArg Prod.fst stepped) stops
    · rfl

/-- A run is at its limit just if it has completed so many instructions. -/
theorem run_eq_executed_iff (m : Machine) (n : Nat) :
    m.run (some n) = (.ok .executed, m') ↔ Completes n m.start m' := by
  constructor
  · intro ran
    obtain ⟨j, s, done, ⟨rfl, all⟩ | ⟨-, stops, last⟩⟩ := exists_last_step m.start n
    · cases all.symm.trans ran
      exact done
    · exact absurd (congrArg Prod.fst (last.symm.trans ran)) stops
  · exact runFor_of_completes (n := 0)

theorem executed_of_limit {n : Nat} (ran : m.run (some n) = (.ok .executed, m')) :
    m'.executed = m.executed + n ∧ m'.running = true := by
  have done := (run_eq_executed_iff m n).mp ran
  exact ⟨done.executed, done.running rfl⟩

/-- A run that ends before its limit ends with the first step that does not complete. -/
theorem run_of_stop {n : Nat} (stops : (m.run (some n)).1 ≠ .ok .executed) :
    ∃ j s, j < n ∧ Completes j m.start s ∧ s.step.1 ≠ .ok .executed ∧ m.run (some n) = s.step ∧
      (m.run (some n)).2.executed = m.executed + j + instructionCount s.step.1 := by
  obtain ⟨j, s, done, ⟨rfl, all⟩ | ⟨less, stops', last⟩⟩ := exists_last_step m.start n
  · exact absurd (congrArg Prod.fst all) stops
  · have ran : m.run (some n) = s.step := last
    have before : s.executed = m.executed + j := done.executed
    exact ⟨j, s, less, done, stops', ran, by rw [ran, executed_step, before]⟩

theorem executed_run_le (m : Machine) (n : Nat) :
    (m.run (some n)).2.executed ≤ m.executed + n := by
  by_cases goes : (m.run (some n)).1 = .ok .executed
  · exact Nat.le_of_eq (executed_of_limit (Prod.ext goes rfl)).1
  · obtain ⟨j, s, less, -, -, -, counted⟩ := run_of_stop goes
    have := instructionCount_le s.step.1
    omega

/-- A limit may be split, and the counter tells what a run has done. A run with two limits together is
the run with the first and then, if that was at its limit, the run with the second. A run is at its
limit just if each of so many steps completes; then the machine still runs and the counter has grown by
the limit. Any other run answers as the first step that does not complete, and the counter has grown by
the steps in front of that one, and by one more if it halts the machine. So the counter never grows by
more than the limit, and 64 bits hold it if they hold it with the limit added. -/
theorem limited_runs_compose (m : Machine) (n k : Nat) :
    (m.run (some (n + k)) =
      match m.run (some n) with
      | (.ok .executed, m') => m'.run (some k)
      | ended => ended) ∧
    (∀ m', m.run (some n) = (.ok .executed, m') ↔ Completes n m.start m') ∧
    (∀ m', m.run (some n) = (.ok .executed, m') →
      m'.executed = m.executed + n ∧ m'.running = true) ∧
    ((m.run (some n)).1 ≠ .ok .executed →
      ∃ j s, j < n ∧ Completes j m.start s ∧ s.step.1 ≠ .ok .executed ∧
        m.run (some n) = s.step ∧
        (m.run (some n)).2.executed = m.executed + j + instructionCount s.step.1) ∧
    (m.run (some n)).2.executed ≤ m.executed + n ∧
    (m.executed + n < UInt64.size → (m.run (some n)).2.executed < UInt64.size) :=
  ⟨m.run_add n k, fun _ => run_eq_executed_iff m n, fun _ => executed_of_limit, run_of_stop,
    m.executed_run_le n, Nat.lt_of_le_of_lt (m.executed_run_le n)⟩

def addThenHalt : Machine := new.writeAll 0 [0x1021, 0xF025]

/-- The halt is the last instruction that the limit allows, and a limit of one ends in front of it. -/
theorem addThenHalt_runs :
    addThenHalt.run (some 2) = (addThenHalt.run (some 1)).2.run (some 1) ∧
    (addThenHalt.run (some 1)).1 = .ok .executed ∧ (addThenHalt.run (some 1)).2.executed = 0 + 1 ∧
    (addThenHalt.run (some 2)).1 = .ok .halted ∧
    (∃ j s, j < 2 ∧ Completes j addThenHalt.start s ∧ addThenHalt.run (some 2) = s.step ∧
      (addThenHalt.run (some 2)).2.executed = 0 + j + instructionCount s.step.1) ∧
    (addThenHalt.run (some 2)).2.executed < UInt64.size := by
  have goes : (addThenHalt.run (some 1)).1 = .ok .executed := by rfl
  have halts : (addThenHalt.run (some 2)).1 = .ok .halted := by rfl
  have limit : addThenHalt.run (some 1) = (.ok .executed, (addThenHalt.run (some 1)).2) :=
    Prod.ext goes rfl
  have created : addThenHalt.executed = 0 := by rfl
  obtain ⟨composed, -, counted, -, -, -⟩ := limited_runs_compose addThenHalt 1 1
  obtain ⟨-, -, -, early, -, fits⟩ := limited_runs_compose addThenHalt 2 0
  obtain ⟨j, s, less, done, -, last, grown⟩ := early (by rw [halts]; nofun)
  rw [limit] at composed
  rw [created] at counted grown fits
  exact ⟨composed, goes, (counted _ limit).1, halts, ⟨j, s, less, done, last, grown⟩,
    fits (by decide)⟩

end Machine

end LC3
