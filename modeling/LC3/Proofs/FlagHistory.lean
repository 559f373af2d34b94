import LC3.Proofs.Faults
import LC3.Proofs.ResultSigns

/-!
# The flag after any history

A host makes calls and lets the machine run, in any order. The results of this history are the words
that completed instructions have left in their registers, in the order in which they did. What has
become of those registers since then does not matter to the flag: it is absent before the first result
and then the sign of the last one, and a branch goes by that sign.
-/

namespace LC3

namespace Sign

variable {w : Word}

theorem ofWord_eq_zero_iff : ofWord w = .zero ↔ w = 0 := by
  rw [ofWord]
  split
  · next zero => exact ⟨fun _ => zero, fun _ => rfl⟩
  · next nonzero =>
    refine ⟨fun same => ?_, fun zero => absurd zero nonzero⟩
    split at same <;> cases same

theorem ofWord_eq_negative_iff : ofWord w = .negative ↔ w.getLsbD 15 = true := by
  have top : w.msb = w.getLsbD 15 := w.msb_eq_getLsbD_last
  rw [ofWord, ← top]
  split
  · next zero =>
    subst zero
    decide
  · split
    · next negative => exact ⟨fun _ => negative, fun _ => rfl⟩
    · next positive =>
      refine ⟨fun same => ?_, fun negative => absurd negative positive⟩
      cases same

theorem ofWord_eq_positive_iff :
    ofWord w = .positive ↔ w ≠ 0 ∧ w.getLsbD 15 = false := by
  rw [← Bool.not_eq_true, Ne, ← ofWord_eq_zero_iff, ← ofWord_eq_negative_iff]
  cases ofWord w <;> decide

/-- The flag after these results, if it was this one before them. -/
def after (flag : Option Sign) (results : List Word) : Option Sign :=
  (results.getLast?.map ofWord).or flag

variable {flag : Option Sign}

theorem after_append (xs ys : List Word) : after flag (xs ++ ys) = after (after flag xs) ys := by
  rw [after, List.getLast?_append, Option.map_or, Option.or_assoc]
  rfl

theorem after_toList (result? : Option Word) :
    after flag result?.toList = (result?.map ofWord).or flag := by
  cases result? <;> rfl

theorem after_none (results : List Word) : after none results = results.getLast?.map ofWord :=
  Option.or_none

theorem after_ne_none (present : flag ≠ none) (results : List Word) : after flag results ≠ none := by
  rw [after]
  cases results.getLast? with
  | none => exact present
  | some w => nofun

end Sign

namespace Machine

variable {m : Machine}

/-- The results of at most `n` steps, as long as each completes. -/
def runResults : Nat → Machine → List Word
  | 0, _ => []
  | n + 1, m =>
    m.result?.toList ++
      match m.step with
      | (.ok .executed, m) => runResults n m
      | _ => []

theorem flag_runFor (n : Nat) (m : Machine) :
    (m.runFor n).2.flag = Sign.after m.flag (m.runResults n) := by
  induction n generalizing m with
  | zero => rfl
  | succ n ih =>
    have stepped := m.flag_step
    rw [← Sign.after_toList] at stepped
    rw [runFor, runResults, Sign.after_append, ← stepped]
    generalize m.step = result
    obtain ⟨answer, m'⟩ := result
    cases answer with
    | error f => rfl
    | ok outcome =>
      cases outcome with
      | executed => exact ih m'
      | _ => rfl

/-- An instruction with a result completes. -/
theorem perform_of_result? {i : Instruction} {d : Register} (word : Word)
    (leaves : i.result? = some d) : (m.perform word i).1 = .ok .executed := by
  cases i with
  | add | and | not | ld | ldi | ldr | lea => rfl
  | _ => cases leaves

/-- A result is what a completed instruction with a result has left in its register. -/
theorem result?_eq_some_iff {w : Word} :
    m.result? = some w ↔ m.step.1 = .ok .executed ∧
      ∃ d, (Instruction.decode m.fetch.1).result? = some d ∧ m.step.2.register d = w := by
  rw [result?]
  constructor
  · intro left
    split at left
    · next running =>
      obtain ⟨d, leaves, kept⟩ := Option.map_eq_some_iff.mp left
      have completes := perform_of_result? (m := m.fetch.2) m.fetch.1 leaves
      rw [← step_eq_perform_fetch running] at completes
      exact ⟨completes, d, leaves, kept⟩
    · cases left
  · rintro ⟨completes, d, leaves, kept⟩
    rw [if_pos (running_of_step (Prod.ext completes rfl)), leaves]
    exact congrArg some kept

/-- A branch goes by the flag, wherever it is fetched from. -/
theorem pc_step_of_br {c : Condition} {o : BitVec 9} (running : m.running = true)
    (decoded : Instruction.decode m.fetch.1 = .br c o) :
    m.step.2.pc = if c.accepts m.flag then m.pc + 1 + o.signExtend 16 else m.pc + 1 := by
  have fetched := m.fetches_fetch
  rw [step_eq_perform_fetch running, decoded, ← fetched.flag, ← fetched.pc, perform]
  split <;> rfl

end Machine

inductive HostActivity
  | call (c : HostCall)
  | run (limit : Option Nat)

namespace HostActivity

def apply (m : Machine) : HostActivity → Machine
  | .call c => c.apply m
  | .run limit => (m.run limit).2

def results (m : Machine) : HostActivity → List Word
  | .call c => (c.result? m).toList
  | .run limit => m.start.runResults (limit.getD Machine.longestRun)

def applyAll (m : Machine) (activities : List HostActivity) : Machine := activities.foldl apply m

def allResults (m : Machine) : List HostActivity → List Word
  | [] => []
  | a :: activities => a.results m ++ allResults (a.apply m) activities

theorem flag_apply (m : Machine) (a : HostActivity) :
    (a.apply m).flag = Sign.after m.flag (a.results m) := by
  cases a with
  | call c => exact (c.flag_apply m).trans (Sign.after_toList _).symm
  | run limit => exact m.start.flag_runFor _

theorem flag_applyAll (m : Machine) (activities : List HostActivity) :
    (applyAll m activities).flag = Sign.after m.flag (allResults m activities) := by
  induction activities generalizing m with
  | nil => rfl
  | cons a activities ih =>
    have later : applyAll m (a :: activities) = applyAll (a.apply m) activities := rfl
    rw [later, ih, flag_apply, allResults, Sign.after_append]

/-- The flag always shows the last result. After any history from a new machine there is none as long
as there is no result, and then it is that of the sign of the last result; once there, it stays. The
next step adds a result if it completes an instruction with a result, which is then in the register of
that instruction. A branch is taken if it names the sign of the last result. -/
theorem flag_shows_last_result (capacity : Nat) (activities : List HostActivity) :
    let start := Machine.withCapacity capacity
    let m := applyAll start activities
    let results := allResults start activities
    (m.flag = none ↔ results = []) ∧
    (∀ w, results.getLast? = some w →
      (m.flag = some .zero ↔ w = 0) ∧
      (m.flag = some .negative ↔ w.getLsbD 15 = true) ∧
      (m.flag = some .positive ↔ w ≠ 0 ∧ w.getLsbD 15 = false)) ∧
    (∀ later, m.flag ≠ none → (applyAll m later).flag ≠ none) ∧
    (∀ w, m.result? = some w ↔ m.step.1 = .ok .executed ∧
      ∃ d, (Instruction.decode m.fetch.1).result? = some d ∧ m.step.2.register d = w) ∧
    (m.running = true → ∀ c o, Instruction.decode m.fetch.1 = .br c o →
      m.step.2.pc = if c.accepts (results.getLast?.map Sign.ofWord)
        then m.pc + 1 + o.signExtend 16 else m.pc + 1) := by
  intro start m results
  have flag : m.flag = results.getLast?.map Sign.ofWord :=
    (flag_applyAll start activities).trans (Sign.after_none results)
  refine ⟨?_, ?_, ?_, fun w => Machine.result?_eq_some_iff, ?_⟩
  · rw [flag, Option.map_eq_none_iff, List.getLast?_eq_none_iff]
  · intro w last
    rw [flag, last, Option.map_some, Option.some_inj, Option.some_inj, Option.some_inj]
    exact ⟨Sign.ofWord_eq_zero_iff, Sign.ofWord_eq_negative_iff, Sign.ofWord_eq_positive_iff⟩
  · intro later present
    rw [flag_applyAll]
    exact Sign.after_ne_none present _
  · intro running c o decoded
    rw [Machine.pc_step_of_br running decoded, flag]

/-- A run of one instruction leaves a negative result in `R1`, and the host then overwrites it. -/
def overwrittenResult : List HostActivity :=
  [.call (.write 0 0x127F), .call (.write 1 0x0801), .run (some 1), .call (.setRegister ⟨1⟩ 5)]

theorem overwrittenResult_branches :
    let m := applyAll (.withCapacity 1) overwrittenResult
    allResults (.withCapacity 1) overwrittenResult = [0xFFFF] ∧ m.register ⟨1⟩ = 5 ∧
      m.flag = some .negative ∧ Instruction.decode m.fetch.1 = .br ⟨true, false, false⟩ 1 ∧
      m.pc = 1 ∧ m.step.2.pc = 3 := by
  have results : allResults (.withCapacity 1) overwrittenResult = [0xFFFF] := by rfl
  have running : (applyAll (.withCapacity 1) overwrittenResult).running = true := by rfl
  have decoded : Instruction.decode (applyAll (.withCapacity 1) overwrittenResult).fetch.1 =
      .br ⟨true, false, false⟩ 1 := by decide +kernel
  have counter : (applyAll (.withCapacity 1) overwrittenResult).pc = 1 := by rfl
  have overwritten : (applyAll (.withCapacity 1) overwrittenResult).register ⟨1⟩ = 5 := by rfl
  obtain ⟨-, shows, -, -, branches⟩ := flag_shows_last_result 1 overwrittenResult
  rw [results] at shows branches
  generalize applyAll (.withCapacity 1) overwrittenResult = m at *
  have branched : m.step.2.pc = m.pc + 1 + (1 : BitVec 9).signExtend 16 :=
    (branches running _ _ decoded).trans (if_pos (by decide))
  rw [counter] at branched
  exact ⟨results, overwritten, (shows 0xFFFF rfl).2.1.mpr (by decide), decoded, counter, branched⟩

end HostActivity

end LC3
