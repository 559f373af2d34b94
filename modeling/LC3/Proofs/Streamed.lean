import LC3.CommandLine.Session
import LC3.Proofs.StepEndings

/-!
# Execution on unbounded streams

In a streamed execution all of the input is there from the start, and what an instruction writes is
carried off at once. No instruction waits for more input to arrive or for room in the output, and
only a text longer than the output queue could ever hold is a fault. An execution under a limit on
instructions ends in exactly one way, or it has no limit and never ends.
-/

namespace LC3

structure Streamed where
  machine : Machine
  written : List Word

namespace Streamed

open Machine (keyboardStatus)

def begin (m : Machine) (input : List Word) : Streamed :=
  ⟨{ m.start with input := ⟨input, input.length, Nat.le_refl _⟩ }, []⟩

def step (s : Streamed) : Except Fault Outcome × Streamed :=
  let (result, m) := s.machine.step
  let (words, output) := m.output.drain
  (result, ⟨{ m with output := output }, s.written ++ words⟩)

/-- The state after so many completed instructions, if there are as many. -/
def after (s : Streamed) : Nat → Option Streamed
  | 0 => some s
  | n + 1 =>
    match (s.after n).map step with
    | some (.ok .executed, s) => some s
    | _ => none

/-- Whether one more instruction may follow `k` completed ones. -/
def Allows (limit : Option Nat) (k : Nat) : Prop := ∀ n, limit = some n → k < n

/-- How a session ends at a step that does not go on. -/
def ending? : Except Fault Outcome → Option Ending
  | .ok .halted => some .success
  | .ok .waitingForInput => some (.failure "Program is waiting for input but stdin is closed")
  | .error fault => some (.failure fault.message)
  | .ok .executed | .ok .waitingForOutput => none

/-- The execution ends in this way under the limit, with these words written: at the limit, or at a
step before it that halts, needs more input than there is, or faults. -/
inductive Ends (limit : Option Nat) (start : Streamed) : Ending → List Word → Prop
  | exhausted {n : Nat} {s : Streamed} (limited : limit = some n) (ran : start.after n = some s) :
      Ends limit start
        (.failure ("Program did not halt within " ++ n.repr ++ " instructions")) s.written
  | stopped {k : Nat} {s : Streamed} {ending : Ending} (allowed : Allows limit k)
      (ran : start.after k = some s) (stops : ending? s.step.1 = some ending) :
      Ends limit start ending s.step.2.written

/-- The execution has no limit and goes on forever. -/
def Endless (limit : Option Nat) (start : Streamed) : Prop :=
  limit = none ∧ ∀ k, (start.after k).isSome = true

/-- No step that the limit allows reads the keyboard status cell. -/
def Quiet (limit : Option Nat) (start : Streamed) : Prop :=
  ∀ k s, Allows limit k → start.after k = some s → keyboardStatus ∉ s.machine.stepLoads

variable {limit : Option Nat} {start s : Streamed} {k n : Nat}

theorem after_succ (ran : start.after k = some s) {next : Streamed}
    (goes : s.step = (.ok .executed, next)) : start.after (k + 1) = some next := by
  rw [after, ran, Option.map_some, goes]

theorem after_succ_eq_none (ran : start.after k = some s) (stops : s.step.1 ≠ .ok .executed) :
    start.after (k + 1) = none := by
  rw [after, ran, Option.map_some]
  split
  · next _ goes => exact absurd (congrArg Prod.fst (Option.some.inj goes)) stops
  · rfl

theorem isSome_after_of_le (le : k ≤ n) (ran : (start.after n).isSome = true) :
    (start.after k).isSome = true := by
  induction le with
  | refl => exact ran
  | @step m le ih =>
    apply ih
    cases earlier : start.after m with
    | some _ => rfl
    | none => simp [after, earlier] at ran

/-- Nothing runs past a step that does not go on. -/
theorem le_of_stops (ran : start.after k = some s) (stops : s.step.1 ≠ .ok .executed)
    (ran' : (start.after n).isSome = true) : n ≤ k := by
  apply Nat.le_of_not_lt
  intro later
  have next := isSome_after_of_le later ran'
  rw [after_succ_eq_none ran stops] at next
  cases next

/-- An execution that gets no further than some number of instructions comes to a step that does
not go on. -/
theorem exists_stop (failed : start.after n = none) :
    ∃ k s, k < n ∧ start.after k = some s ∧ s.step.1 ≠ .ok .executed := by
  induction n with
  | zero => cases failed
  | succ n ih =>
    cases ran : start.after n with
    | none =>
      obtain ⟨k, s, less, found⟩ := ih ran
      exact ⟨k, s, Nat.lt_succ_of_lt less, found⟩
    | some s =>
      refine ⟨n, s, Nat.lt_succ_self n, ran, fun goes => ?_⟩
      rw [after_succ ran (Prod.ext goes rfl)] at failed
      cases failed

theorem ending?_ne_executed {result : Except Fault Outcome} {ending : Ending}
    (stops : ending? result = some ending) : result ≠ .ok .executed := by
  rintro rfl
  cases stops

/-- The status of an execution that ends tells whether it has halted. -/
theorem Ends.status_eq {ending : Ending} {words : List Word}
    (ends : Ends limit start ending words) :
    ending.status = if ending = .success then 0 else 1 := by
  cases ends with
  | exhausted limited ran => rfl
  | @stopped k s ending allowed ran stops =>
    generalize s.step.1 = result at stops
    cases result with
    | error fault =>
      cases stops
      rfl
    | ok outcome =>
      cases outcome <;> cases stops <;> rfl

/-- An execution that ends has a last instruction. -/
theorem Ends.exists_last {ending : Ending} {words : List Word}
    (ends : Ends limit start ending words) :
    ∃ last, ∀ k, (∀ n, limit = some n → k ≤ n) → (start.after k).isSome = true → k ≤ last := by
  cases ends with
  | @exhausted n s limited ran => exact ⟨n, fun k within _ => within n limited⟩
  | @stopped k s ending allowed ran stops =>
    exact ⟨k, fun n _ ran' => le_of_stops ran (ending?_ne_executed stops) ran'⟩

/-- An endless execution does not end. -/
theorem Endless.not_ends {ending : Ending} {words : List Word} (endless : Endless limit start) :
    ¬Ends limit start ending words := by
  intro ends
  obtain ⟨last, bound⟩ := ends.exists_last
  obtain ⟨rfl, goes⟩ := endless
  have later := bound (last + 1) nofun (goes (last + 1))
  omega

theorem Ends.unique {ending ending' : Ending} {words words' : List Word}
    (first : Ends limit start ending words) (second : Ends limit start ending' words') :
    ending = ending' ∧ words = words' := by
  cases first with
  | @exhausted n s limited ran =>
    cases second with
    | @exhausted n' s' limited' ran' =>
      cases limited.symm.trans limited'
      cases ran.symm.trans ran'
      exact ⟨rfl, rfl⟩
    | @stopped k s' _ allowed ran' stops =>
      have less := allowed n limited
      have last := le_of_stops ran' (ending?_ne_executed stops) (by rw [ran]; rfl)
      omega
  | @stopped k s _ allowed ran stops =>
    cases second with
    | @exhausted n s' limited ran' =>
      have less := allowed n limited
      have last := le_of_stops ran (ending?_ne_executed stops) (by rw [ran']; rfl)
      omega
    | @stopped k' s' _ allowed' ran' stops' =>
      have le := le_of_stops ran (ending?_ne_executed stops) (by rw [ran']; rfl)
      have ge := le_of_stops ran' (ending?_ne_executed stops') (by rw [ran]; rfl)
      cases Nat.le_antisymm ge le
      cases ran.symm.trans ran'
      cases stops.symm.trans stops'
      exact ⟨rfl, rfl⟩

/-- An execution that stops is quiet when the steps up to there are. -/
theorem quiet_of_stops (ran : start.after k = some s) (stops : s.step.1 ≠ .ok .executed)
    (quiet : ∀ n ≤ k, ∀ s, start.after n = some s → keyboardStatus ∉ s.machine.stepLoads) :
    Quiet limit start := by
  intro n s _ ran'
  exact quiet n (le_of_stops ran stops (by rw [ran']; rfl)) s ran'

/-- Between steps the output queue is empty, with the capacity that it has always had. -/
theorem output_after (empty : start.machine.output.items = []) (ran : start.after k = some s) :
    s.machine.output.items = [] ∧ s.machine.output.capacity = start.machine.output.capacity := by
  induction k generalizing s with
  | zero =>
    cases ran
    exact ⟨empty, rfl⟩
  | succ k ih =>
    simp only [after] at ran
    split at ran
    · next next goes =>
      cases ran
      obtain ⟨before, ran, goes⟩ := Option.map_eq_some_iff.mp goes
      have traffic := Machine.Traffic.step before.machine
      obtain ⟨-, capacity⟩ := Queue.items_of_foldlM_push? traffic.output
      have last : s = before.step.2 := (congrArg Prod.snd goes).symm
      rw [last]
      exact ⟨rfl, capacity.trans (ih ran).2⟩
    · cases ran

/-- An execution ends, or it is endless. -/
theorem ends_or_endless (empty : start.machine.output.items = [])
    (room : 0 < start.machine.output.capacity) :
    (∃ ending words, Ends limit start ending words) ∨ Endless limit start := by
  have stop : ∀ k s, Allows limit k → start.after k = some s → s.step.1 ≠ .ok .executed →
      ∃ ending words, Ends limit start ending words := by
    intro k s allowed ran stuck
    obtain ⟨drained, capacity⟩ := output_after empty ran
    have served := Machine.step_ne_waitingForOutput drained (capacity ▸ room)
    obtain ⟨ending, stops⟩ : ∃ ending, ending? s.step.1 = some ending := by
      have same : s.step.1 = s.machine.step.1 := rfl
      rw [← same] at served
      cases result : s.step.1 with
      | error fault => exact ⟨_, rfl⟩
      | ok outcome =>
        cases outcome with
        | executed => exact absurd result stuck
        | waitingForOutput => exact absurd result served
        | _ => exact ⟨_, rfl⟩
    exact ⟨ending, _, .stopped allowed ran stops⟩
  cases limit with
  | some n =>
    left
    cases ran : start.after n with
    | some s => exact ⟨_, _, .exhausted rfl ran⟩
    | none =>
      obtain ⟨k, s, less, ran, stuck⟩ := exists_stop ran
      exact stop k s (by rintro _ ⟨⟩; exact less) ran stuck
  | none =>
    by_cases endless : ∀ k, (start.after k).isSome = true
    · exact .inr ⟨rfl, endless⟩
    · obtain ⟨n, failed⟩ := Classical.not_forall.mp endless
      obtain ⟨k, s, -, ran, stuck⟩ := exists_stop (Option.not_isSome_iff_eq_none.mp failed)
      exact .inl (stop k s nofun ran stuck)

end Streamed

end LC3
