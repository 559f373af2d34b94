import LC3.Proofs.History

/-!
# The sign of the last result

Seven instructions leave a result in a register and its sign in the flag. No other instruction and
no call of the host touches the flag, so after any history it is the sign of the last result, and
absent as long as there is none. A branch on all signs is therefore taken from the first result on,
and before it control falls through.
-/

namespace LC3

def Instruction.result? : Instruction → Option Register
  | .add d .. | .and d .. | .not d _ | .ld d _ | .ldi d _ | .ldr d .. | .lea d _ => some d
  | _ => none

namespace Machine

def result? (m : Machine) : Option Word :=
  if m.running then (Instruction.decode m.fetch.1).result?.map m.step.2.register else none

variable (m : Machine)

theorem flag_setResult (d : Register) (w : Word) :
    let after := ((m.setResult d w).completed .executed).2
    after.flag = some (Sign.ofWord (after.register d)) := by
  simp only [completed, setResult, register, Registers.get_set, if_true]

theorem flag_load (a : Word) : (m.load a).2.flag = m.flag := by
  obtain ⟨memory, input, frame⟩ := m.frame_load a
  rw [frame]

/-- An instruction with a result leaves its sign; any other keeps the sign that was there. -/
theorem flag_perform (word : Word) (i : Instruction) :
    (m.perform word i).2.flag =
      ((i.result?.map (m.perform word i).2.register).map Sign.ofWord).or m.flag := by
  cases i with
  | br c o =>
    simp only [perform, completed, Instruction.result?, Option.map_none, Option.none_or]
    split <;> rfl
  | add d _ _ | and d _ _ | not d _ | ld d _ | ldi d _ | ldr d _ _ | lea d _ =>
    simp only [perform]
    exact flag_setResult _ d _
  | sti s o =>
    have loaded := m.flag_load (m.target o)
    simp only [perform, Instruction.result?, Option.map_none, Option.none_or]
    generalize m.load (m.target o) = pointer at loaded ⊢
    exact loaded
  | trap v =>
    simp only [perform, Instruction.result?, Option.map_none, Option.none_or]
    split
    · next t _ => exact (m.serves_serve t).flag
    · exact (m.setRegister .r7 m.pc).flag_load (v.setWidth 16)
  | _ => rfl

/-- After a step the flag is the sign of its result, or what it was if there is none. -/
theorem flag_step : m.step.2.flag = (m.result?.map Sign.ofWord).or m.flag := by
  rw [result?]
  by_cases running : m.running = true
  · have fetched : m.fetch.2.flag = m.flag := m.flag_load m.pc
    rw [if_pos running, step_eq_perform_fetch running, flag_perform, fetched]
  · rw [if_neg running, step, if_neg running]
    rfl

end Machine

namespace HostCall

def result? (m : Machine) : HostCall → Option Word
  | .step => m.result?
  | _ => none

theorem flag_apply (m : Machine) (c : HostCall) :
    (c.apply m).flag = ((c.result? m).map Sign.ofWord).or m.flag := by
  cases c with
  | step => exact m.flag_step
  | load a => exact m.flag_load a
  | setOrigin origin =>
    rw [apply, Machine.moveOrigin_eq]
    rfl
  | assemble lines =>
    obtain ⟨memory, pc, frame⟩ := m.frame_assemble lines
    rw [apply, frame]
    rfl
  | _ => rfl

def applyAll (m : Machine) (calls : List HostCall) : Machine := calls.foldl apply m

def lastResult? (m : Machine) : List HostCall → Option Word
  | [] => none
  | c :: calls => (lastResult? (c.apply m) calls).or (c.result? m)

/-- After any history the flag is the sign of the last result, or what it was if there is none. -/
theorem flag_applyAll (m : Machine) (calls : List HostCall) :
    (applyAll m calls).flag = ((lastResult? m calls).map Sign.ofWord).or m.flag := by
  induction calls generalizing m with
  | nil => rfl
  | cons c calls ih =>
    have later : applyAll m (c :: calls) = applyAll (c.apply m) calls := rfl
    rw [later, ih, flag_apply, lastResult?, ← Option.or_assoc]
    cases lastResult? (c.apply m) calls <;> rfl

end HostCall

/-- A branch on all signs takes any sign, but needs one. -/
theorem Condition.accepts_always (flag : Option Sign) : always.accepts flag = flag.isSome := by
  cases flag with
  | none => rfl
  | some sign => cases sign <;> rfl

namespace Line

/-- The line is a branch on all signs, by either of its mnemonics. -/
def Unconditional (line : Line) (x : Operand) : Prop :=
  (line.opcode = some "BR" ∨ line.opcode = some "BRNZP") ∧ line.operands = [x]

theorem contents?_of_unconditional {line : Line} {x : Operand} {labels : Labels} {a v : Word}
    (plain : line.Unconditional x) (resolved : Slot.offset.resolve labels a x = .ok (.value v)) :
    line.contents? labels a = .ok (some (.instruction (.br .always (v.narrow 9)))) := by
  obtain ⟨coded, operands⟩ := plain
  have all : Slot.resolveAll labels a [.offset] line.operands = .ok [.value v] := by
    simp only [operands, Slot.resolveAll, resolved]
  have found : ∀ opcode, Condition.ofMnemonic? opcode = some .always →
      Form.find? opcode line.operands = some ⟨"BR", [.offset], .branch⟩ := by
    intro opcode named
    rw [operands, Form.find?, Form.key, named]
    cases x with
    | number w => rfl
    | label name => rfl
    | _ => cases resolved
  rcases coded with coded | coded
  · exact contents?_of_form _ coded (found _ rfl) all rfl rfl
  · exact contents?_of_form _ coded (found _ rfl) all rfl rfl

end Line

namespace HostCall

/-- A line with a branch on all signs is a single word. In every history from a new machine, a step
that fetches this word goes to the target if there has been a result, and otherwise on to the next
address. -/
theorem unconditional_branch_step {line : Line} {x : Operand} {labels : Labels} {a v : Word}
    (plain : line.Unconditional x) (resolved : Slot.offset.resolve labels a x = .ok (.value v)) :
    ∃ w, line.contents? labels a = .ok (some (.words [w])) ∧
      ∀ (capacity : Nat) (calls : List HostCall),
        let start := Machine.withCapacity capacity
        let m := applyAll start calls
        m.running = true → m.pc ≠ Machine.keyboardStatus → m.peek m.pc = w →
          m.step = ({ m with
            pc := if (lastResult? start calls).isSome then m.pc + 1 + (v.narrow 9).signExtend 16
              else m.pc + 1 } : Machine).completed .executed := by
  refine ⟨_, Line.contents?_of_unconditional plain resolved, ?_⟩
  intro capacity calls start m running quiet fetched
  have flag : m.flag = (lastResult? start calls).map Sign.ofWord :=
    (flag_applyAll start calls).trans Option.or_none
  have taken : Condition.always.accepts m.flag = (lastResult? start calls).isSome := by
    rw [Condition.accepts_always, flag, Option.isSome_map]
  rw [Machine.step_of_encode running quiet fetched]
  simp only [Machine.perform, taken]
  split <;> rfl

/-- A loop whose first instruction has a result. -/
def branchLoop : List Line :=
  [{ label := some "TOP", opcode := some "LEA", operands := [.register .r0, .number 0],
     number := 1, span := ⟨0, 13⟩ },
    { opcode := some "BRNZP", operands := [.label "TOP"], number := 2, span := ⟨14, 9⟩ }]

def branchLoopCalls : List HostCall := [.assemble branchLoop, .start, .step]

theorem branch_loop_taken :
    Slot.offset.resolve [("TOP", 0)] 1 (.label "TOP") = .ok (.value 0xFFFE) ∧
      branchLoop[1].contents? [("TOP", 0)] 1 = .ok (some (.words [0x0FFE])) ∧
      (applyAll .new branchLoopCalls).pc = 1 ∧
      (applyAll .new branchLoopCalls).step.2.pc = 0 := by
  have plain : branchLoop[1].Unconditional (.label "TOP") := ⟨.inr rfl, rfl⟩
  have resolved : Slot.offset.resolve [("TOP", 0)] 1 (.label "TOP") = .ok (.value 0xFFFE) := rfl
  obtain ⟨w, made, steps⟩ := unconditional_branch_step plain resolved
  have word : w = 0x0FFE := by
    have same : branchLoop[1].contents? [("TOP", 0)] 1 = .ok (some (.words [0x0FFE])) := rfl
    cases same.symm.trans made
    rfl
  subst word
  have running : (applyAll .new branchLoopCalls).running = true := by decide +kernel
  have counter : (applyAll .new branchLoopCalls).pc = 1 := by decide +kernel
  have fetched : (applyAll .new branchLoopCalls).peek 1 = 0x0FFE := by decide +kernel
  have result : (lastResult? .new branchLoopCalls).isSome = true := by decide +kernel
  have step := steps Queue.defaultCapacity branchLoopCalls running
    (by rw [← Machine.new, counter]; decide) (by rw [← Machine.new, counter]; exact fetched)
  rw [← Machine.new, result, if_pos rfl, counter] at step
  exact ⟨resolved, made, counter, congrArg (fun r => r.2.pc) step⟩

/-- A branch on all signs over the second cell. -/
def firstBranch : List Line :=
  [{ opcode := some "BR", operands := [.number 1], number := 1, span := ⟨0, 5⟩ }]

def firstBranchCalls : List HostCall := [.assemble firstBranch, .start]

/-- As the first instruction of a program the branch is not taken. -/
theorem first_branch_falls_through :
    firstBranch[0].contents? [] 0 = .ok (some (.words [0x0E01])) ∧
      (applyAll .new firstBranchCalls).running = true ∧
      (applyAll .new firstBranchCalls).pc = 0 ∧
      (applyAll .new firstBranchCalls).peek 0 = 0x0E01 ∧
      (applyAll .new firstBranchCalls).step.2.pc = 1 ∧
      (applyAll .new firstBranchCalls).step.2.pc ≠ 0 + 1 + 1 := by
  refine ⟨rfl, ?_⟩
  decide +kernel

end HostCall

end LC3
