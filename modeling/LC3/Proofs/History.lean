import LC3.Proofs.Emission
import LC3.Proofs.QueueTraffic

/-!
# The queues over a history

A host calls the operations of a machine in any order, steps among them. A ledger keeps what each
call shows of the queues: the words that a queue has accepted and the words that have been taken
from it. The two accounts always differ by what the queue holds, so no word is lost, repeated or
moved past another.
-/

namespace LC3

inductive QueueCall
  | push (w : Word)
  | pushText (text : String)
  | pop
  | drain

namespace QueueCall

/-- The queue after the call; a refused word leaves it as it is. -/
def apply (q : Queue) : QueueCall → Queue
  | .push w => (q.push? w).getD q
  | .pushText text => (q.fill (textWords text)).2
  | .pop => (q.pop?.map Prod.snd).getD q
  | .drain => q.drain.2

def accepted (q : Queue) : QueueCall → List Word
  | .push w => if (q.push? w).isSome then [w] else []
  | .pushText text => (textWords text).take (q.fill (textWords text)).1
  | _ => []

def removed (q : Queue) : QueueCall → List Word
  | .pop => (q.pop?.map Prod.fst).toList
  | .drain => q.drain.1
  | _ => []

theorem balanced (q : Queue) (c : QueueCall) :
    q.items ++ c.accepted q = c.removed q ++ (c.apply q).items ∧
      (c.apply q).capacity = q.capacity := by
  cases c with
  | push w =>
    cases pushed : q.push? w with
    | none => simp [accepted, removed, apply, pushed]
    | some q' =>
      obtain ⟨items, capacity⟩ := Queue.append?_items pushed
      simp [accepted, removed, apply, pushed, items, capacity]
  | pushText text =>
    refine ⟨?_, rfl⟩
    simp only [accepted, removed, apply, Queue.fill, List.nil_append, List.append_cancel_left_eq]
    rw [List.take_eq_take_iff]
    omega
  | pop =>
    cases popped : q.pop? with
    | none => simp [accepted, removed, apply, popped]
    | some front =>
      obtain ⟨items, capacity⟩ := Queue.items_of_pop? popped
      simp [accepted, removed, apply, popped, items, capacity]
  | drain => exact ⟨rfl, rfl⟩

end QueueCall

/-- What a host does with a machine. -/
inductive HostCall
  | input (c : QueueCall)
  | output (c : QueueCall)
  | load (a : Word)
  | write (a w : Word)
  | start
  | stop
  | setRegister (r : Register) (w : Word)
  | setOrigin (origin : Word)
  | assemble (lines : List Line)
  | step

namespace HostCall

/-- The machine after the call, whether or not the call was refused. -/
def apply (m : Machine) : HostCall → Machine
  | .input c => { m with input := c.apply m.input }
  | .output c => { m with output := c.apply m.output }
  | .load a => (m.load a).2
  | .write a w => m.write a w
  | .start => m.start
  | .stop => m.stop
  | .setRegister r w => m.setRegister r w
  | .setOrigin origin => m.moveOrigin origin
  | .assemble lines => (m.assemble lines).2
  | .step => m.step.2

def inputAccepted (m : Machine) : HostCall → List Word
  | .input c => c.accepted m.input
  | _ => []

/-- The words taken from the input queue: by the host, by a load into the keyboard data cell, or by
a step. -/
def inputRemoved (m : Machine) : HostCall → List Word
  | .input c => c.removed m.input
  | .load a => m.polled a
  | .step => m.received
  | _ => []

/-- The words that the output queue accepts, from the host or from a step. -/
def outputAccepted (m : Machine) : HostCall → List Word
  | .output c => c.accepted m.output
  | .step => m.emitted
  | _ => []

def outputRemoved (m : Machine) : HostCall → List Word
  | .output c => c.removed m.output
  | _ => []

/-- What a call adds to the accounts of a queue makes up for what it changes in the queue. -/
theorem balanced (m : Machine) (c : HostCall) :
    (m.input.items ++ c.inputAccepted m = c.inputRemoved m ++ (c.apply m).input.items ∧
      (c.apply m).input.capacity = m.input.capacity) ∧
    (m.output.items ++ c.outputAccepted m = c.outputRemoved m ++ (c.apply m).output.items ∧
      (c.apply m).output.capacity = m.output.capacity) := by
  have kept : ∀ q q' : Queue, q' = q →
      q.items ++ [] = [] ++ q'.items ∧ q'.capacity = q.capacity := by
    rintro q q' rfl
    exact ⟨List.append_nil _, rfl⟩
  cases c with
  | input c => exact ⟨c.balanced m.input, kept _ _ rfl⟩
  | output c => exact ⟨kept _ _ rfl, c.balanced m.output⟩
  | load a =>
    have traffic := Machine.Traffic.load m a
    obtain ⟨items, capacity⟩ := Queue.items_of_foldlM_push? traffic.output
    exact ⟨⟨(List.append_nil _).trans traffic.input_items, traffic.input_capacity⟩,
      items.symm, capacity⟩
  | step =>
    have traffic := Machine.Traffic.step m
    obtain ⟨items, capacity⟩ := Queue.items_of_foldlM_push? traffic.output
    exact ⟨⟨(List.append_nil _).trans traffic.input_items, traffic.input_capacity⟩,
      items.symm, capacity⟩
  | setOrigin origin =>
    rw [apply, Machine.moveOrigin_eq]
    exact ⟨kept _ _ rfl, kept _ _ rfl⟩
  | assemble lines =>
    obtain ⟨memory, pc, frame⟩ := m.frame_assemble lines
    rw [apply, frame]
    exact ⟨kept _ _ rfl, kept _ _ rfl⟩
  | _ => exact ⟨kept _ _ rfl, kept _ _ rfl⟩

end HostCall

/-- A machine and what its host has seen of the queues. -/
structure Ledger where
  machine : Machine
  inputAccepted : List Word
  inputRemoved : List Word
  outputAccepted : List Word
  outputRemoved : List Word

namespace Ledger

def begin (m : Machine) : Ledger := ⟨m, [], [], [], []⟩

/-- The host makes a call and enters what it shows. -/
def record (l : Ledger) (c : HostCall) : Ledger where
  machine := c.apply l.machine
  inputAccepted := l.inputAccepted ++ c.inputAccepted l.machine
  inputRemoved := l.inputRemoved ++ c.inputRemoved l.machine
  outputAccepted := l.outputAccepted ++ c.outputAccepted l.machine
  outputRemoved := l.outputRemoved ++ c.outputRemoved l.machine

def after (l : Ledger) (calls : List HostCall) : Ledger := calls.foldl record l

/-- Each queue has its capacity, and holds what it has accepted and nobody has taken from it. -/
structure Balanced (capacity : Nat) (l : Ledger) : Prop where
  input_capacity : l.machine.input.capacity = capacity
  input_account : l.inputAccepted = l.inputRemoved ++ l.machine.input.items
  output_capacity : l.machine.output.capacity = capacity
  output_account : l.outputAccepted = l.outputRemoved ++ l.machine.output.items

variable {capacity : Nat} {l : Ledger}

theorem balanced_begin (capacity : Nat) : Balanced capacity (begin (.withCapacity capacity)) :=
  ⟨rfl, rfl, rfl, rfl⟩

theorem Balanced.record (balanced : Balanced capacity l) (c : HostCall) :
    Balanced capacity (l.record c) := by
  obtain ⟨⟨input, sameInput⟩, output, sameOutput⟩ := c.balanced l.machine
  refine ⟨sameInput.trans balanced.input_capacity, ?_, sameOutput.trans balanced.output_capacity,
    ?_⟩
  · simp only [Ledger.record, balanced.input_account, List.append_assoc, input]
  · simp only [Ledger.record, balanced.output_account, List.append_assoc, output]

theorem Balanced.after (balanced : Balanced capacity l) (calls : List HostCall) :
    Balanced capacity (l.after calls) := by
  induction calls generalizing l with
  | nil => exact balanced
  | cons c calls ih => exact ih (balanced.record c)

/-- No word that passes through a queue is lost, repeated or moved past another. After any history
from a new machine, neither queue holds more than its capacity, and what a queue has accepted is
what has been taken from it and then what it holds. In the step that follows, a text routine pushes
its whole text or leaves the output alone, the echoing trap takes a word and pushes its low byte or
leaves both queues alone, and no push is refused. -/
theorem queues_conserve_words (capacity : Nat) (calls : List HostCall) :
    let l := (begin (.withCapacity capacity)).after calls
    (l.machine.input.length ≤ capacity ∧
        l.machine.input.length + l.machine.input.free = capacity) ∧
      (l.machine.output.length ≤ capacity ∧
        l.machine.output.length + l.machine.output.free = capacity) ∧
      l.inputAccepted = l.inputRemoved ++ l.machine.input.items ∧
      l.outputAccepted = l.outputRemoved ++ l.machine.output.items ∧
      (l.machine.emitted.foldlM Queue.push? l.machine.output = some l.machine.step.2.output) ∧
      (l.machine.running = true → ∀ t,
        (Instruction.decode l.machine.fetch.1).routine? = some t →
        (t.writesText = true → l.machine.step.2.output = l.machine.output ∨
          ∃ text, l.machine.WholeText text t ∧
            text.foldlM Queue.push? l.machine.output = some l.machine.step.2.output) ∧
        (t = .echo →
          (l.machine.step.2.input = l.machine.input ∧
            l.machine.step.2.output = l.machine.output) ∨
          ∃ w, l.machine.input.items = w :: l.machine.step.2.input.items ∧
            l.machine.step.2.register .r0 = w ∧
            l.machine.output.push? (Word.ofByte w.lowByte) = some l.machine.step.2.output)) := by
  intro l
  have balanced : Balanced capacity l := (balanced_begin capacity).after calls
  have room : ∀ q : Queue, q.capacity = capacity →
      q.length ≤ capacity ∧ q.length + q.free = capacity := by
    rintro q rfl
    exact ⟨q.length_le, Nat.add_sub_cancel' q.length_le⟩
  refine ⟨room _ balanced.input_capacity, room _ balanced.output_capacity, balanced.input_account,
    balanced.output_account, (Machine.Traffic.step l.machine).output, ?_⟩
  intro running t routine
  refine ⟨Machine.step_writesText running routine, ?_⟩
  rintro rfl
  exact Machine.step_echo running routine

/-- A machine of capacity one echoes a character, polls the next with an indirect load and comes to
an `OUT`; of a text offered meanwhile nothing is accepted. -/
def echoCalls : List HostCall :=
  [.write 0 0xF023, .write 1 0xA201, .write 2 0xF021, .write 3 0xFE00, .start,
    .input (.push 0x41), .input (.pushText "no room"), .step, .input (.push 0x142), .step,
    .output .pop]

def echoLedger : Ledger := (begin (.withCapacity 1)).after echoCalls

theorem echoLedger_conserves_words :
    echoLedger.inputAccepted = [0x41, 0x142] ∧
      echoLedger.inputRemoved ++ echoLedger.machine.input.items = [0x41, 0x142] ∧
      echoLedger.outputRemoved ++ echoLedger.machine.output.items = [0x41] ∧
      (echoLedger.machine.step.2.output = echoLedger.machine.output ∨
        ∃ text, echoLedger.machine.WholeText text .out ∧
          text.foldlM Queue.push? echoLedger.machine.output =
            some echoLedger.machine.step.2.output) := by
  have conserved := queues_conserve_words 1 echoCalls
  rw [← echoLedger] at conserved
  obtain ⟨-, -, input, output, -, next⟩ := conserved
  have accepted : echoLedger.inputAccepted = [0x41, 0x142] := by decide +kernel
  have written : echoLedger.outputAccepted = [0x41] := by decide +kernel
  have running : echoLedger.machine.running = true := by decide +kernel
  have routine : (Instruction.decode echoLedger.machine.fetch.1).routine? = some .out := by
    decide +kernel
  exact ⟨accepted, input.symm.trans accepted, output.symm.trans written,
    (next running .out routine).1 rfl⟩

end Ledger

end LC3
