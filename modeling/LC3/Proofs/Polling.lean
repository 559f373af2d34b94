import LC3.Proofs.History
import LC3.Machine
import Mathlib.Control.Monad.Basic

/-!
# The polling loop

A program polls the keyboard until a character has come, fetches it and writes it out. However its
steps alternate with a host that types and takes what was written, every character is written once
and in its turn. At most one is on the way through the program: it is in the keyboard data cell when
the status has told of it, and then in `R0`, and which of the two follows from the program counter.
-/

namespace LC3

def Word.echo (w : Word) : Word := ofByte w.lowByte

def pollingProgram : String :=
  "\n".intercalate [".ORIG x3000", "POLL LDI R1, KBSR", "BRZP POLL", "LDI R0, KBDR", "OUT",
    "BR POLL", "KBSR .FILL xFE00", "KBDR .FILL xFE02"]

def pollingLines : List Line :=
  [{ opcode := some ".ORIG", operands := [.number 0x3000], number := 1, span := ⟨0, 11⟩ },
    { label := some "POLL", opcode := some "LDI", operands := [.register ⟨1⟩, .label "KBSR"],
      number := 2, span := ⟨12, 17⟩ },
    { opcode := some "BRZP", operands := [.label "POLL"], number := 3, span := ⟨30, 9⟩ },
    { opcode := some "LDI", operands := [.register .r0, .label "KBDR"], number := 4,
      span := ⟨40, 12⟩ },
    { opcode := some "OUT", number := 5, span := ⟨53, 3⟩ },
    { opcode := some "BR", operands := [.label "POLL"], number := 6, span := ⟨57, 7⟩ },
    { label := some "KBSR", opcode := some ".FILL", operands := [.number 0xFE00], number := 7,
      span := ⟨65, 16⟩ },
    { label := some "KBDR", opcode := some ".FILL", operands := [.number 0xFE02], number := 8,
      span := ⟨82, 16⟩ }]

def pollingLabels : Labels := [("POLL", 0x3000), ("KBSR", 0x3005), ("KBDR", 0x3006)]

def pollingCode : List Word :=
  [(Instruction.ldi ⟨1⟩ 4).encode, (Instruction.br ⟨false, true, true⟩ (-2)).encode,
    (Instruction.ldi .r0 3).encode, (Instruction.trap 0x21).encode,
    (Instruction.br .always (-5)).encode, Machine.keyboardStatus, Machine.keyboardData]

def pollingMachine (capacity : Nat) : Machine :=
  ((Machine.withCapacity capacity).moveOrigin 0x3000).writeAll 0x3000 pollingCode

theorem parse_pollingProgram : Source.parse pollingProgram = .ok pollingLines := by
  decide +kernel

theorem emit_pollingLines (m : Machine) : m.emit pollingLabels 0 pollingLines =
    (.ok (), (m.moveOrigin 0x3000).writeAll 0x3000 pollingCode) := rfl

theorem assemble_pollingLines (capacity : Nat) :
    (Machine.withCapacity capacity).assemble pollingLines =
      (.ok pollingLabels, pollingMachine capacity) := by
  rw [Machine.assemble_eq_ok_iff]
  exact ⟨rfl, emit_pollingLines _⟩

def Memory.HasPolling (memory : Memory) : Prop :=
  ∀ i : Fin 7, memory.read (0x3000 + BitVec.ofNat 16 i) = pollingCode.get i

theorem Memory.hasPolling_writeAll (memory : Memory) :
    (memory.writeAll 0x3000 pollingCode).HasPolling := by
  intro i
  have distance : ∀ i : Fin 7, (0x3000 + BitVec.ofNat 16 i - 0x3000 : Word).toNat = i := by decide
  rw [read_writeAll _ _ _ (by decide), distance, List.getElem?_eq_getElem i.isLt, Option.getD_some]
  rfl

/-- The keyboard cells are not among those of the program. -/
theorem Memory.HasPolling.write {memory : Memory} (code : memory.HasPolling) {a : Word}
    (keyboard : a = Machine.keyboardStatus ∨ a = Machine.keyboardData) (w : Word) :
    (memory.write a w).HasPolling := by
  intro i
  have apart : ∀ i : Fin 7, Machine.keyboardStatus ≠ 0x3000 + BitVec.ofNat 16 i ∧
      Machine.keyboardData ≠ 0x3000 + BitVec.ofNat 16 i := by decide
  rw [read_write, if_neg ?_, code i]
  rcases keyboard with rfl | rfl
  · exact (apart i).1
  · exact (apart i).2

theorem Queue.capacity_pos {q : Queue} {w : Word} {ws : List Word} (items : q.items = w :: ws) :
    0 < q.capacity := by
  have bound := q.length_le
  rw [items, List.length_cons] at bound
  omega

namespace Machine

/-- Where a machine is in the program, with the character that is on its way. -/
inductive IsPolling (m : Machine) : Option Word → Prop
  | poll (pc : m.pc = 0x3000) : IsPolling m none
  | empty (pc : m.pc = 0x3001) (flag : m.flag = some .zero) : IsPolling m none
  | ready {w : Word} (pc : m.pc = 0x3001) (flag : m.flag = some .negative)
      (data : m.peek keyboardData = w) : IsPolling m (some w)
  | fetch {w : Word} (pc : m.pc = 0x3002) (data : m.peek keyboardData = w) : IsPolling m (some w)
  | put {w : Word} (pc : m.pc = 0x3003) (flag : m.flag.isSome = true)
      (character : m.register .r0 = w) : IsPolling m (some w)
  | again (pc : m.pc = 0x3004) (flag : m.flag.isSome = true) : IsPolling m none

/-- A machine that performs the program. A character can only be on its way if the queues can hold
one. -/
structure Polls (m : Machine) (pending : Option Word) : Prop where
  running : m.running = true
  code : m.memory.HasPolling
  place : m.IsPolling pending
  capacity : m.input.capacity = m.output.capacity
  room : pending.isSome = true → 0 < m.output.capacity

theorem IsPolling.withQueues {m : Machine} {pending : Option Word} (place : m.IsPolling pending)
    (input output : Queue) : (m.withQueues input output).IsPolling pending := by
  cases place with
  | poll pc => exact .poll pc
  | empty pc flag => exact .empty pc flag
  | ready pc flag data => exact .ready pc flag data
  | fetch pc data => exact .fetch pc data
  | put pc flag character => exact .put pc flag character
  | again pc flag => exact .again pc flag

theorem Polls.withQueues {m : Machine} {pending : Option Word} (polls : m.Polls pending)
    {input output : Queue} (sameInput : input.capacity = m.input.capacity)
    (sameOutput : output.capacity = m.output.capacity) :
    (m.withQueues input output).Polls pending where
  running := polls.running
  code := polls.code
  place := polls.place.withQueues input output
  capacity := sameInput.trans (polls.capacity.trans sameOutput.symm)
  room := fun present => sameOutput ▸ polls.room present

/-- What a step of the program does to the queues and to the character on its way. -/
inductive Moves (m m' : Machine) : Option Word → Option Word → Prop
  | still {pending : Option Word} (input : m'.input = m.input) (output : m'.output = m.output) :
      Moves m m' pending pending
  | polled {w : Word} (input : m.input.items = w :: m'.input.items)
      (output : m'.output = m.output) : Moves m m' none (some w)
  | written {w : Word} (input : m'.input = m.input)
      (output : m'.output.items = m.output.items ++ [w.echo]) : Moves m m' (some w) none

variable {m m' : Machine} {pending pending' : Option Word}

/-- What is taken and was on its way is what is written and is on its way. -/
theorem Moves.account {taken written : List Word} (moves : Moves m m' pending pending')
    (input : m.input.items = taken ++ m'.input.items)
    (output : m'.output.items = m.output.items ++ written) :
    (pending.toList ++ taken).map Word.echo = written ++ pending'.toList.map Word.echo := by
  cases moves with
  | still sameInput sameOutput =>
    obtain rfl : taken = [] := by simpa [sameInput] using input
    obtain rfl : written = [] := by simpa [sameOutput] using output
    simp
  | polled front sameOutput =>
    obtain rfl : taken = [_] := List.append_cancel_right (input.symm.trans front)
    obtain rfl : written = [] := by simpa [sameOutput] using output
    rfl
  | written sameInput back =>
    obtain rfl : taken = [] := by simpa [sameInput] using input
    obtain rfl : written = [_] := List.append_cancel_left (output.symm.trans back)
    rfl

variable {a b p w : Word} {d : Register} {o : BitVec 9} {c : Condition}

theorem step_of_pc {i : Instruction} (running : m.running = true) (pc : m.pc = a)
    (quiet : a ≠ keyboardStatus) (fetched : m.peek a = i.encode) :
    m.step = { m with pc := a + 1 }.perform i.encode i := by
  subst pc
  exact step_of_encode running quiet fetched

/-- An indirect load through a pointer that is not polled. -/
theorem step_ldi {m₁ : Machine} (running : m.running = true) (pc : m.pc = a)
    (quiet : a ≠ keyboardStatus) (fetched : m.peek a = (Instruction.ldi d o).encode)
    (reached : a + 1 + o.signExtend 16 = b) (quiet' : b ≠ keyboardStatus) (pointer : m.peek b = p)
    (loaded : { m with pc := a + 1 }.load p = (w, m₁)) :
    m.step = (m₁.setResult d w).completed .executed := by
  subst reached pointer
  have pointed : { m with pc := a + 1 }.load (a + 1 + o.signExtend 16) =
      (m.peek (a + 1 + o.signExtend 16), { m with pc := a + 1 }) := load_of_ne quiet'
  rw [step_of_pc running pc quiet fetched]
  simp only [perform, target, pointed, loaded]

theorem step_br (running : m.running = true) (pc : m.pc = a) (quiet : a ≠ keyboardStatus)
    (fetched : m.peek a = (Instruction.br c o).encode) (reached : a + 1 + o.signExtend 16 = b) :
    m.step = { m with pc := if c.accepts m.flag then b else a + 1 }.completed .executed := by
  subst reached
  rw [step_of_pc running pc quiet fetched, perform]
  split <;> rfl

/-- The machine goes on with the program, or waits at its `OUT`. -/
def GoesOn (m : Machine) (pending : Option Word) : Prop :=
  (m.step.1 = .ok .executed ∨ m.step.1 = .ok .waitingForOutput) ∧
    ∃ pending', m.step.2.Polls pending' ∧ Moves m m.step.2 pending pending'

namespace Polls

/-- A poll takes a word from the input, if there is one, and tells so by the sign of the status. -/
theorem goesOn_poll (polls : m.Polls none) (pc : m.pc = 0x3000) : m.GoesOn none := by
  obtain ⟨running, code, -, capacity, room⟩ := polls
  rw [GoesOn]
  cases popped : m.input.pop? with
  | none =>
    have loaded := load_keyboardStatus_of_none (m := { m with pc := 0x3001 }) popped
    rw [step_ldi running pc (by decide) (code 0) (b := 0x3005) (by decide) (by decide) (code 5)
      loaded]
    exact ⟨.inl rfl, none,
      ⟨running, code.write (.inl rfl) 0, .empty rfl rfl, capacity, room⟩, .still rfl rfl⟩
  | some front =>
    obtain ⟨w, rest⟩ := front
    obtain ⟨items, same⟩ := Queue.items_of_pop? popped
    have loaded := load_keyboardStatus_of_some (m := { m with pc := 0x3001 }) popped
    rw [step_ldi running pc (by decide) (code 0) (b := 0x3005) (by decide) (by decide) (code 5)
      loaded]
    refine ⟨.inl rfl, some w, ⟨running, (code.write (.inl rfl) _).write (.inr rfl) w, ?_,
      same.trans capacity, fun _ => capacity ▸ Queue.capacity_pos items⟩, .polled items rfl⟩
    exact .ready rfl rfl ((Memory.read_write ..).trans (if_pos rfl))

/-- A character that does not fit the output is tried again. -/
theorem goesOn_put (polls : m.Polls (some w)) (pc : m.pc = 0x3003)
    (flag : m.flag.isSome = true) (character : m.register .r0 = w) : m.GoesOn (some w) := by
  have ⟨running, code, _, capacity, room⟩ := polls
  have stepped : m.step = { m with pc := 0x3004 }.writeText [w.echo] := by
    subst character
    exact step_of_pc running pc (by decide) (code 3)
  rw [GoesOn]
  by_cases fits : [w.echo].length ≤ m.output.free
  · obtain ⟨output, items, same, written⟩ := writeText_of_room (m := { m with pc := 0x3004 }) fits
    rw [stepped, written]
    exact ⟨.inl rfl, none,
      ⟨running, code, .again rfl flag, capacity.trans same.symm, nofun⟩, .written rfl items⟩
  · have back : (0x3004 - 1 : Word) = m.pc := by
      rw [pc]
      decide
    have waited : m.step = (.ok .waitingForOutput, m) := by
      rw [stepped, writeText_of_no_room (m := { m with pc := 0x3004 }) (Nat.lt_of_not_le fits)
        (room rfl)]
      simp only [retried, back]
    rw [waited]
    exact ⟨.inr rfl, some w, polls, .still rfl rfl⟩

/-- No step of the program faults or waits for input, and none loses the character on its way. -/
theorem goesOn (polls : m.Polls pending) : m.GoesOn pending := by
  have ⟨running, code, place, capacity, room⟩ := polls
  cases place with
  | poll pc => exact polls.goesOn_poll pc
  | empty pc flag =>
    rw [GoesOn, step_br running pc (by decide) (code 1) (b := 0x3000) (by decide), flag]
    exact ⟨.inl rfl, none, ⟨running, code, .poll rfl, capacity, room⟩, .still rfl rfl⟩
  | ready pc flag data =>
    rw [GoesOn, step_br running pc (by decide) (code 1) (b := 0x3000) (by decide), flag]
    exact ⟨.inl rfl, _, ⟨running, code, .fetch rfl data, capacity, room⟩, .still rfl rfl⟩
  | fetch pc data =>
    have loaded : { m with pc := 0x3003 }.load keyboardData =
        (m.peek keyboardData, { m with pc := 0x3003 }) := load_of_ne (by decide)
    rw [GoesOn, step_ldi running pc (by decide) (code 2) (b := 0x3006) (by decide) (by decide)
      (code 6) loaded]
    have character : (m.registers.set .r0 (m.peek keyboardData)).get .r0 = m.peek keyboardData :=
      (Registers.get_set ..).trans (if_pos rfl)
    exact ⟨.inl rfl, _, ⟨running, code, .put rfl rfl (character.trans data), capacity, room⟩,
      .still rfl rfl⟩
  | put pc flag character => exact polls.goesOn_put pc flag character
  | again pc flag =>
    obtain ⟨sign, signed⟩ := Option.isSome_iff_exists.mp flag
    have taken : Condition.always.accepts m.flag = true := by
      rw [signed]
      cases sign <;> rfl
    rw [GoesOn, step_br running pc (by decide) (code 4) (b := 0x3000) (by decide), if_pos taken]
    exact ⟨.inl rfl, none, ⟨running, code, .poll rfl, capacity, room⟩, .still rfl rfl⟩

end Polls

end Machine

/-- What a host does while the program runs: it types, or it takes what was written, or it lets the
machine make a step. -/
def HostCall.isExchange : HostCall → Bool
  | .input (.push _) | .input (.pushText _) | .output .pop | .output .drain | .step => true
  | _ => false

namespace Ledger

/-- The words that the machine has taken from the input and not written yet. -/
def inFlight (l : Ledger) : List Word := l.inputRemoved.drop l.outputAccepted.length

/-- What was taken from the input has been written, but for the character on its way. -/
structure Echoes (l : Ledger) (pending : Option Word) : Prop where
  polls : l.machine.Polls pending
  account : l.inputRemoved.map Word.echo = l.outputAccepted ++ pending.toList.map Word.echo

variable {l : Ledger} {pending : Option Word}

theorem Echoes.record_step (echoes : l.Echoes pending) :
    ∃ pending', (l.record .step).Echoes pending' := by
  obtain ⟨-, pending', polls, moves⟩ := echoes.polls.goesOn
  have traffic := Machine.Traffic.step l.machine
  have moved := moves.account traffic.input_items
    (Queue.items_of_foldlM_push? traffic.output).1
  refine ⟨pending', polls, ?_⟩
  simp only [record, HostCall.inputRemoved, HostCall.outputAccepted, List.map_append,
    echoes.account, List.append_assoc, ← moved]

/-- The host adds to the input or takes from the output, and touches nothing between them. -/
theorem Echoes.record {c : HostCall} (echoes : l.Echoes pending) (exchange : c.isExchange = true) :
    ∃ pending', (l.record c).Echoes pending' := by
  cases c with
  | input c =>
    have removed : c.removed l.machine.input = [] := by
      cases c with
      | push w => rfl
      | pushText text => rfl
      | _ => cases exchange
    refine ⟨pending, echoes.polls.withQueues (c.balanced _).2 rfl, ?_⟩
    simpa [Ledger.record, HostCall.inputRemoved, HostCall.outputAccepted, removed]
      using echoes.account
  | output c =>
    have accepted : c.accepted l.machine.output = [] := by
      cases c with
      | pop => rfl
      | drain => rfl
      | _ => cases exchange
    refine ⟨pending, echoes.polls.withQueues rfl (c.balanced _).2, ?_⟩
    simpa [Ledger.record, HostCall.inputRemoved, HostCall.outputAccepted, accepted]
      using echoes.account
  | step => exact echoes.record_step
  | _ => cases exchange

theorem Echoes.after {calls : List HostCall} (echoes : l.Echoes pending)
    (exchange : ∀ c ∈ calls, c.isExchange = true) :
    ∃ pending', (l.after calls).Echoes pending' := by
  induction calls generalizing l pending with
  | nil => exact ⟨pending, echoes⟩
  | cons c calls ih =>
    obtain ⟨first, others⟩ := List.forall_mem_cons.mp exchange
    obtain ⟨pending', echoes'⟩ := echoes.record first
    exact ih echoes' others

/-- What is in flight is the character on its way. -/
theorem Echoes.inFlight (echoes : l.Echoes pending) :
    l.inFlight.length ≤ 1 ∧
      l.inputRemoved.map Word.echo = l.outputAccepted ++ l.inFlight.map Word.echo := by
  obtain ⟨-, account⟩ := echoes
  have same : l.inFlight.map Word.echo = pending.toList.map Word.echo := by
    rw [Ledger.inFlight, List.map_drop, account, List.drop_left]
  refine ⟨?_, by rw [account, same]⟩
  have length := congrArg List.length same
  rw [List.length_map, List.length_map] at length
  rw [length]
  cases pending <;> simp

theorem echoes_begin (capacity : Nat) : (begin (pollingMachine capacity).start).Echoes none :=
  ⟨⟨rfl, Memory.hasPolling_writeAll _, .poll rfl, rfl, nofun⟩, rfl⟩

end Ledger

open Ledger in
/-- Whatever the capacity of the queues and however the host takes turns with the machine, the
polling loop neither faults nor waits for input, and it writes the low bytes of the words that are
typed, in their order. Of the words that the input queue accepted, the first have been taken from
the output, the next are in the output queue, then comes at most one in flight, and the others are
still in the input queue. -/
theorem polling_loop_echoes (capacity : Nat) :
    ∃ lines labels m, Source.parse pollingProgram = .ok lines ∧
      (Machine.withCapacity capacity).assemble lines = (.ok labels, m) ∧
      ∀ calls : List HostCall, (∀ c ∈ calls, c.isExchange = true) →
        let l := (begin m.start).after calls
        (l.machine.step.1 = .ok .executed ∨ l.machine.step.1 = .ok .waitingForOutput) ∧
          l.inFlight.length ≤ 1 ∧
          l.inputAccepted.map Word.echo = l.outputRemoved ++ l.machine.output.items ++
            l.inFlight.map Word.echo ++ l.machine.input.items.map Word.echo := by
  refine ⟨_, _, pollingMachine capacity, parse_pollingProgram, assemble_pollingLines _,
    fun calls exchange => ?_⟩
  intro l
  have started : Balanced capacity (begin (pollingMachine capacity).start) := ⟨rfl, rfl, rfl, rfl⟩
  have balanced : Balanced capacity l := started.after calls
  obtain ⟨pending, echoes⟩ := (echoes_begin capacity).after exchange
  obtain ⟨short, written⟩ := echoes.inFlight
  refine ⟨echoes.polls.goesOn.1, short, ?_⟩
  rw [balanced.input_account, List.map_append, written, balanced.output_account]

/-- Queues of one word refuse a second one. The first passes through the program, wherever it is
after these steps. -/
def pollingCalls : List HostCall :=
  [.input (.push 0x8041), .input (.push 0), .step, .step, .step, .step, .output .pop]

theorem polling_loop_echoes_letter :
    let l := (Ledger.begin (pollingMachine 1).start).after pollingCalls
    l.inputAccepted = [0x8041] ∧
      (l.machine.step.1 = .ok .executed ∨ l.machine.step.1 = .ok .waitingForOutput) ∧
      [0x41] = l.outputRemoved ++ l.machine.output.items ++ l.inFlight.map Word.echo ++
        l.machine.input.items.map Word.echo := by
  intro l
  obtain ⟨lines, labels, m, read, assembled, runs⟩ := polling_loop_echoes 1
  cases read.symm.trans parse_pollingProgram
  cases assembled.symm.trans (assemble_pollingLines _)
  obtain ⟨going, -, account⟩ := runs pollingCalls (by decide)
  exact ⟨rfl, going, account⟩

end LC3
