import LC3.Machine.Step
import LC3.Proofs.StepEndings

/-!
# Runs and their last steps

A run completes instructions until the limit or until a step that does not complete, which is then
the last one. What the run leaves is what its last step leaves.
-/

namespace LC3.Machine

/-- In so many steps, each of which completes an instruction, the one machine becomes the other. -/
inductive Completes : Nat → Machine → Machine → Prop
  | refl (m : Machine) : Completes 0 m m
  | step {k : Nat} {m m₁ m' : Machine} (first : m.step = (.ok .executed, m₁))
      (later : Completes k m₁ m') : Completes (k + 1) m m'

variable {m m' : Machine} {k n : Nat}

theorem Completes.running (done : Completes k m m') (running : m.running = true) :
    m'.running = true := by
  induction done with
  | refl => exact running
  | step first _ ih => exact ih (running_step first)

theorem runFor_of_step (stepped : m.step = (.ok .executed, m')) (n : Nat) :
    m.runFor (n + 1) = m'.runFor n := by
  rw [runFor, stepped]

theorem runFor_of_stop (stops : m.step.1 ≠ .ok .executed) (n : Nat) :
    m.runFor (n + 1) = m.step := by
  rw [runFor]
  split
  · next stepped => exact absurd (congrArg Prod.fst stepped) stops
  · next stepped => exact stepped.symm
  · next stepped => exact stepped.symm

theorem runFor_of_completes (done : Completes k m m') (n : Nat) :
    m.runFor (k + n) = m'.runFor n := by
  induction done with
  | refl => rw [Nat.zero_add]
  | step first _ ih => rw [Nat.succ_add, runFor_of_step first, ih]

/-- A run makes all its steps, or it stops at one that does not complete. -/
theorem exists_last_step (m : Machine) (n : Nat) :
    ∃ k m', Completes k m m' ∧
      (k = n ∧ m.runFor n = (.ok .executed, m') ∨
        k < n ∧ m'.step.1 ≠ .ok .executed ∧ m.runFor n = m'.step) := by
  induction n generalizing m with
  | zero => exact ⟨0, m, .refl m, .inl ⟨rfl, rfl⟩⟩
  | succ n ih =>
    by_cases goes : m.step.1 = .ok .executed
    · have stepped : m.step = (.ok .executed, m.step.2) := Prod.ext goes rfl
      obtain ⟨k, m', done, ends⟩ := ih m.step.2
      refine ⟨k + 1, m', .step stepped done, ?_⟩
      rw [runFor_of_step stepped]
      exact ends.imp (fun ⟨all, ran⟩ => ⟨congrArg (· + 1) all, ran⟩)
        fun ⟨less, stops⟩ => ⟨Nat.succ_lt_succ less, stops⟩
    · exact ⟨0, m, .refl m, .inr ⟨Nat.succ_pos n, goes, runFor_of_stop goes n⟩⟩

/-- A run ends otherwise than at its limit just if some step within the limit is the first not to
complete, and ends with what this step leaves. -/
theorem runFor_eq_iff {result : Except Fault Outcome} (stops : result ≠ .ok .executed) :
    m.runFor n = (result, m') ↔
      ∃ k s, k < n ∧ Completes k m s ∧ s.step = (result, m') := by
  constructor
  · intro ran
    obtain ⟨k, s, done, ⟨-, all⟩ | ⟨less, -, last⟩⟩ := exists_last_step m n
    · cases all.symm.trans ran
      exact absurd rfl stops
    · exact ⟨k, s, less, done, last.symm.trans ran⟩
  · rintro ⟨k, s, less, done, last⟩
    obtain ⟨rest, rfl⟩ := Nat.exists_eq_add_of_lt less
    have stops' : s.step.1 ≠ .ok .executed := by
      rw [last]
      exact stops
    rw [Nat.add_assoc, runFor_of_completes done, runFor_of_stop stops', last]

end LC3.Machine
