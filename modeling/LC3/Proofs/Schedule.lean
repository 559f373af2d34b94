import LC3.Proofs.QueueFrame

/-!
# The schedule of the host

A host pushes the words of one stream onto the input queue and takes words from the output queue,
between steps of the machine and in any order. The count of executed instructions alone decides
what the program has computed, what it has consumed and what it has written. Every run follows one
reference execution, in which each step finds the next word of the stream and an empty output
queue; the steps that wait are the ones the reference execution does not take.
-/

namespace LC3

/-- A machine with its host: how many words of the stream have been accepted, how many input words
the machine has consumed, and the words the host has taken from the output. -/
structure Hosted where
  machine : Machine
  accepted : Nat
  consumed : Nat
  taken : List Word

inductive HostAction
  | push
  | pop
  | drain
  | step

namespace Hosted

open Machine (keyboardStatus)

def begin (m : Machine) : Hosted := ⟨m, 0, 0, []⟩

/-- One action. A push offers the next word of the stream, if there is one; a refused word is
offered again by the next push. There is no result when a step reads the keyboard status cell or
faults. -/
def act (stream : Nat → Option Word) (h : Hosted) : HostAction → Option Hosted
  | .push =>
    match (stream h.accepted).bind h.machine.input.push? with
    | some input =>
      some { h with machine := { h.machine with input := input }, accepted := h.accepted + 1 }
    | none => some h
  | .pop =>
    match h.machine.output.pop? with
    | some (w, rest) =>
      some { h with machine := { h.machine with output := rest }, taken := h.taken ++ [w] }
    | none => some h
  | .drain =>
    let (ws, rest) := h.machine.output.drain
    some { h with machine := { h.machine with output := rest }, taken := h.taken ++ ws }
  | .step =>
    if keyboardStatus ∈ h.machine.stepLoads then none
    else
      match h.machine.step with
      | (.ok _, m) =>
        some { h with
          machine := m
          consumed := h.consumed + (h.machine.input.length - m.input.length) }
      | (.error _, _) => none

def run (stream : Nat → Option Word) : List HostAction → Hosted → Option Hosted
  | [], h => some h
  | a :: as, h => (h.act stream a).bind (run stream as)

end Hosted

/-- The machine with no input and no output, of the same output capacity. -/
def Machine.bare (m : Machine) : Machine :=
  m.withQueues (.empty 0) (.empty m.output.capacity)

/-- What a program has done, whatever its queues hold. -/
structure Progress where
  bare : Machine
  consumed : Nat
  written : List Word

namespace Progress

/-- The machine with one word of input and room for a whole output. -/
def supplied (p : Progress) (supply : Nat → Word) : Machine :=
  p.bare.withQueues ⟨[supply p.consumed], 1, Nat.le_refl 1⟩ (.empty p.bare.output.capacity)

/-- One instruction, supplied with the next input word. -/
def next (supply : Nat → Word) (p : Progress) : Progress :=
  let m := (p.supplied supply).step.2
  { bare := m.withQueues (.empty 0) (.empty p.bare.output.capacity)
    consumed := p.consumed + (1 - m.input.length)
    written := p.written ++ m.output.items }

def after (supply : Nat → Word) (p : Progress) : Nat → Progress
  | 0 => p
  | n + 1 => (p.after supply n).next supply

end Progress

namespace Hosted

open Machine (keyboardStatus)

def progress (h : Hosted) : Progress :=
  ⟨h.machine.bare, h.consumed, h.taken ++ h.machine.output.items⟩

/-- The words a program consumes in order: those queued at the start, then the stream. -/
def supply (start : Machine) (stream : Nat → Option Word) (n : Nat) : Word :=
  if h : n < start.input.items.length then start.input.items[n]
  else (stream (n - start.input.items.length)).getD 0

/-- The run has come to the `n`th state of the reference execution, and the words in its input
queue are the next of the supply. -/
structure Follows (start : Machine) (stream : Nat → Option Word) (n : Nat) (h : Hosted) : Prop where
  progress_eq : h.progress = (begin start).progress.after (supply start stream) n
  executed_eq : h.machine.executed = start.executed + n
  counted : h.consumed + h.machine.input.items.length = start.input.items.length + h.accepted
  queued : h.machine.input.items =
    (List.range' h.consumed h.machine.input.items.length).map (supply start stream)

theorem follows_begin (start : Machine) (stream : Nat → Option Word) :
    Follows start stream 0 (begin start) := by
  refine ⟨rfl, rfl, Nat.zero_add _, List.ext_getElem (by simp [begin]) ?_⟩
  intro k inside inside'
  have queued : k < start.input.items.length := inside
  simp [begin, supply, queued]

variable {start : Machine} {stream : Nat → Option Word} {n : Nat} {h h' : Hosted}

/-- What the host does to the queues leaves the run at the same state. -/
theorem Follows.push (follows : Follows start stream n h) {input : Queue}
    (pushed : (stream h.accepted).bind h.machine.input.push? = some input) :
    Follows start stream n
      { h with machine := { h.machine with input := input }, accepted := h.accepted + 1 } := by
  obtain ⟨w, offered, accepted⟩ := Option.bind_eq_some_iff.mp pushed
  obtain ⟨items, -⟩ := Queue.append?_items accepted
  have counted := follows.counted
  have queued := follows.queued
  refine ⟨follows.progress_eq, follows.executed_eq, ?_, ?_⟩
  · simp only [items, List.length_append, List.length_singleton]
    omega
  · have last : supply start stream (h.consumed + h.machine.input.items.length) = w := by
      rw [counted, supply, dif_neg (by omega), Nat.add_sub_cancel_left, offered]
      rfl
    simp only [items, List.length_append, List.length_singleton, List.range'_concat, Nat.one_mul,
      List.map_append, List.map_cons, List.map_nil, last]
    rw [← queued]

/-- An output queue with fewer words, the others with the host, leaves the run at its state. -/
theorem Follows.take (follows : Follows start stream n h) {ws : List Word} {rest : Queue}
    (front : h.machine.output.items = ws ++ rest.items)
    (same : rest.capacity = h.machine.output.capacity) :
    Follows start stream n
      { h with machine := { h.machine with output := rest }, taken := h.taken ++ ws } := by
  refine ⟨?_, follows.executed_eq, follows.counted, follows.queued⟩
  rw [← follows.progress_eq]
  simp only [progress, Machine.bare, Machine.withQueues, same, front, List.append_assoc]

/-- A step that takes the next word of the supply, or none, moves the progress by one step of the
reference execution. -/
theorem next_progress {supply : Nat → Word} {m' : Machine} {o : Outcome} {taken written : List Word}
    (exchanged : Machine.Exchanges Machine.step h.machine m' o taken written)
    (front : taken = (List.range' h.consumed taken.length).map supply) :
    h.progress.next supply =
      progress { h with machine := m', consumed := h.consumed + taken.length } := by
  have short := exchanged.taken_le
  obtain ⟨rest, first, count⟩ : ∃ rest, [supply h.consumed] = taken ++ rest ∧
      1 - rest.length = taken.length := by
    match taken with
    | [] => exact ⟨[supply h.consumed], rfl, rfl⟩
    | [w] => exact ⟨[], front.symm, rfl⟩
  obtain ⟨i, q, stepped, items, output⟩ := exchanged.frame
    ⟨[supply h.consumed], 1, Nat.le_refl 1⟩ (.empty h.machine.output.capacity) rest first rfl
    exchanged.written_le
  have supplied : (h.progress.supplied supply).step = (.ok o, m'.withQueues i q) := stepped
  have emitted : q.items = written := output
  have left : 1 - i.length = taken.length := by rw [Queue.length, items, count]
  have capacity : h.progress.bare.output.capacity = m'.output.capacity := exchanged.capacity_eq.symm
  simp only [Progress.next, supplied, capacity]
  simp only [progress, Machine.withQueues, left, emitted, exchanged.output_eq, List.append_assoc]
  rfl

/-- A completed step is the next step of the reference execution. -/
theorem Follows.exchange (follows : Follows start stream n h) {m' : Machine} {o : Outcome}
    {taken written : List Word}
    (exchanged : Machine.Exchanges Machine.step h.machine m' o taken written) :
    Follows start stream (n + 1)
      { h with machine := m', consumed := h.consumed + taken.length } := by
  have lengths : h.machine.input.items.length = taken.length + m'.input.items.length := by
    rw [exchanged.input_eq, List.length_append]
  have counted := follows.counted
  have queued := follows.queued
  rw [lengths, ← List.range'_append_1, List.map_append, exchanged.input_eq] at queued
  -- The words taken and the words left are the next of the supply.
  obtain ⟨front, left⟩ := List.append_inj queued (by simp)
  refine ⟨?_, ?_, by dsimp only; omega, left⟩
  · rw [Progress.after, ← follows.progress_eq]
    exact (next_progress exchanged front).symm
  · rw [exchanged.counted, follows.executed_eq, Nat.add_assoc]

/-- Every action keeps the run on the reference execution. -/
theorem Follows.act {action : HostAction} (follows : Follows start stream n h)
    (acted : h.act stream action = some h') : ∃ n', Follows start stream n' h' := by
  cases action with
  | push =>
    simp only [Hosted.act] at acted
    split at acted
    · next input pushed =>
      cases acted
      exact ⟨n, follows.push pushed⟩
    · cases acted
      exact ⟨n, follows⟩
  | pop =>
    simp only [Hosted.act] at acted
    split at acted
    · next w rest popped =>
      cases acted
      obtain ⟨front, same⟩ := Queue.items_of_pop? popped
      have first : h.machine.output.items = [w] ++ rest.items := front
      exact ⟨n, follows.take first same⟩
    · cases acted
      exact ⟨n, follows⟩
  | drain =>
    cases acted
    exact ⟨n, follows.take (List.append_nil _).symm rfl⟩
  | step =>
    simp only [Hosted.act] at acted
    split at acted
    · cases acted
    · next quiet =>
      split at acted
      · next o m' stepped =>
        cases acted
        rcases Machine.step_cases quiet stepped with
          ⟨-, rfl⟩ | ⟨-, taken, written, exchanged⟩
        · -- A step that waits changes nothing, so the run stays where it is.
          refine ⟨n, ?_⟩
          rw [Nat.sub_self]
          exact follows
        · refine ⟨n + 1, ?_⟩
          have count : h.machine.input.length - m'.input.length = taken.length := by
            rw [Queue.length, exchanged.input_eq, List.length_append]
            exact Nat.add_sub_cancel _ _
          rw [count]
          exact follows.exchange exchanged
      · cases acted

theorem Follows.run {actions : List HostAction} (follows : Follows start stream n h)
    (ran : run stream actions h = some h') : ∃ n', Follows start stream n' h' := by
  induction actions generalizing n h with
  | nil =>
    cases ran
    exact ⟨n, follows⟩
  | cons action actions ih =>
    obtain ⟨between, acted, rest⟩ := Option.bind_eq_some_iff.mp ran
    obtain ⟨n', follows'⟩ := follows.act acted
    exact ih follows' rest

/-- The schedule of the host cannot change what a program computes: two runs that have executed
equally many instructions agree on everything but the queues, and on the words written. -/
theorem schedule_independent {actions actions' : List HostAction} {first second : Hosted}
    (ran : run stream actions (begin start) = some first)
    (ran' : run stream actions' (begin start) = some second)
    (together : first.machine.executed = second.machine.executed) :
    first.machine.pc = second.machine.pc ∧
      first.machine.registers = second.machine.registers ∧
      first.machine.flag = second.machine.flag ∧
      first.machine.running = second.machine.running ∧
      first.machine.memory = second.machine.memory ∧
      first.consumed = second.consumed ∧
      first.taken ++ first.machine.output.items = second.taken ++ second.machine.output.items := by
  obtain ⟨n, follows⟩ := (follows_begin start stream).run ran
  obtain ⟨n', follows'⟩ := (follows_begin start stream).run ran'
  have counts : n = n' := by
    have executed := follows.executed_eq
    have executed' := follows'.executed_eq
    omega
  subst counts
  have same : first.progress = second.progress := follows.progress_eq.trans follows'.progress_eq.symm
  have bare : first.machine.bare = second.machine.bare := congrArg Progress.bare same
  simp only [Machine.bare, Machine.withQueues, Machine.mk.injEq] at bare
  obtain ⟨memory, pc, registers, flag, running, -⟩ := bare
  exact ⟨pc, registers, flag, running, memory, congrArg Progress.consumed same,
    congrArg Progress.written same⟩

/-- A loop that writes each word it reads, with room for one word in each queue. -/
def copyLoop : Machine :=
  ((Machine.withCapacity 1).writeAll 0 [0xF020, 0xF021, 0xC040]).start

def twoLetters (n : Nat) : Option Word := [0x41, 0x42][n]?

/-- A schedule of the loop that never waits, and one that waits for input, offers a word that is
refused and waits for the output. -/
theorem copyLoop_schedule_independent :
    ∃ first second : Hosted,
      run twoLetters [.push, .step, .step, .pop, .step, .push, .step, .step]
        (begin copyLoop) = some first ∧
      run twoLetters [.step, .push, .push, .step, .push, .step, .step, .step, .step, .drain, .step]
        (begin copyLoop) = some second ∧
      first.machine.executed = 5 ∧ second.machine.executed = 5 ∧
      first.consumed = second.consumed ∧
      first.taken ++ first.machine.output.items = second.taken ++ second.machine.output.items := by
  obtain ⟨first, ran, executed⟩ := Option.map_eq_some_iff.mp (show Option.map
    (·.machine.executed) (run twoLetters [.push, .step, .step, .pop, .step, .push, .step, .step]
      (begin copyLoop)) = some 5 by decide +kernel)
  obtain ⟨second, ran', executed'⟩ := Option.map_eq_some_iff.mp (show Option.map
    (·.machine.executed) (run twoLetters [.step, .push, .push, .step, .push, .step, .step, .step,
      .step, .drain, .step] (begin copyLoop)) = some 5 by decide +kernel)
  have same := schedule_independent ran ran' (executed.trans executed'.symm)
  exact ⟨first, second, ran, ran', executed, executed', same.2.2.2.2.2⟩

end Hosted

end LC3
