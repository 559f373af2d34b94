import LC3.Proofs.StepEndings

/-!
# The values that a step leaves

An effect tells a completed instruction by the values it leaves: the address of the next
instruction, the word that a register receives, the word that a cell receives, the words that enter
and leave the queues. All of them are told from the machine before the step. What an effect does not
name keeps the value that it had before. A service routine may also have to wait, or have more to
write than fits.
-/

namespace LC3

def Sign.ofInt (z : Int) : Sign := if z < 0 then .negative else if z = 0 then .zero else .positive

theorem Sign.ofInt_toInt (w : Word) : ofInt w.toInt = ofWord w := by
  by_cases zero : w = 0
  · subst zero
    rfl
  · have value : w.toInt ≠ 0 := fun same => zero (BitVec.eq_of_toInt_eq same)
    rw [ofInt, ofWord, if_neg zero, if_neg value, BitVec.msb_eq_toInt]
    by_cases below : w.toInt < 0 <;> simp [below]

/-- Whether the bit of the sign is among the bits of the condition; without a sign none is. -/
def Condition.takes (c : Condition) (flag : Option Sign) : Bool :=
  flag.any fun sign => c.bits &&& sign.bits != 0

theorem Condition.takes_eq_accepts (c : Condition) (flag : Option Sign) :
    c.takes flag = c.accepts flag := by
  obtain ⟨n, z, p⟩ := c
  cases flag with
  | none => rfl
  | some sign => cases sign <;> cases n <;> cases z <;> cases p <;> rfl

theorem Word.ofByte_lowByte (w : Word) : ofByte w.lowByte = w &&& 0xFF := by
  apply BitVec.eq_of_toNat_eq
  have byte : w.lowByte.toBitVec = w.setWidth 8 := rfl
  have mask : (0xFF : Word).toNat = 2 ^ 8 - 1 := rfl
  rw [ofByte, byte, BitVec.toNat_setWidth, BitVec.toNat_setWidth, BitVec.toNat_and, mask,
    Nat.and_two_pow_sub_one_eq_mod]
  omega

namespace Machine

variable (m : Machine)

/-- What a program reads at the address. The keyboard status shows whether an input word waits. -/
def seen (a : Word) : Word :=
  if a = keyboardStatus then if m.input.items = [] then 0 else 0x8000 else m.peek a

/-- What the cell holds after the program has read at the addresses. The keyboard cells change if
the status is among them, and the data cell then shows the oldest input word. -/
def afterReads (reads : List Word) (a : Word) : Word :=
  if reads.contains keyboardStatus then
    if a = keyboardData then m.input.items.head?.getD (m.peek a) else m.seen a
  else m.peek a

/-- The machine after a poll of the keyboard, if the status is among the addresses. -/
def reading (reads : List Word) : Machine :=
  if reads.contains keyboardStatus then m.pollKeyboard else m

theorem reading_eq (reads : List Word) :
    m.reading reads =
      { m with memory := (m.reading reads).memory, input := (m.reading reads).input } := by
  rw [reading]
  split
  · exact m.pollKeyboard_eq
  · rfl

theorem peek_pollKeyboard_eq (a : Word) :
    m.pollKeyboard.peek a =
      if a = keyboardData then m.input.items.head?.getD (m.peek a) else m.seen a := by
  have apart : keyboardStatus ≠ keyboardData := by decide
  rw [pollKeyboard]
  cases popped : m.input.pop? with
  | none =>
    have empty := Queue.pop?_eq_none_iff.mp popped
    by_cases data : a = keyboardData
    · subst data
      simp [peek, write, Memory.read_write, apart, empty]
    · by_cases status : keyboardStatus = a
      · simp [peek, write, Memory.read_write, seen, ← status, apart, empty]
      · simp [peek, write, Memory.read_write, seen, data, status, Ne.symm status]
  | some front =>
    obtain ⟨items, -⟩ := Queue.items_of_pop? popped
    by_cases data : a = keyboardData
    · subst data
      simp [peek, Memory.read_write, items]
    · by_cases status : keyboardStatus = a
      · simp [peek, Memory.read_write, seen, ← status, apart, apart.symm, items]
      · simp [peek, Memory.read_write, seen, data, Ne.symm data, status, Ne.symm status]

theorem peek_reading (reads : List Word) (a : Word) :
    (m.reading reads).peek a = m.afterReads reads a := by
  rw [reading, afterReads]
  split
  · exact m.peek_pollKeyboard_eq a
  · rfl

theorem input_reading (reads : List Word) :
    (m.reading reads).input.items =
        (if reads.contains keyboardStatus then m.input.items.tail else m.input.items) ∧
      (m.reading reads).input.capacity = m.input.capacity := by
  rw [reading]
  split
  · rw [pollKeyboard]
    split
    · next w rest popped =>
      obtain ⟨items, capacity⟩ := Queue.items_of_pop? popped
      exact ⟨by rw [items, List.tail_cons], capacity⟩
    · next popped =>
      have empty := Queue.pop?_eq_none_iff.mp popped
      exact ⟨by simp [write, empty], rfl⟩
  · exact ⟨rfl, rfl⟩

theorem load_eq_reading (a : Word) : m.load a = (m.seen a, m.reading [a]) := by
  rw [load, reading]
  by_cases status : a = keyboardStatus
  · subst status
    rw [if_pos rfl, if_pos (by simp), peek_pollKeyboard_eq,
      if_neg (show keyboardStatus ≠ keyboardData by decide)]
  · rw [if_neg status, if_neg (by simpa using Ne.symm status), seen, if_neg status]

/-- A pointer read from the status cell is not the status cell, so that there is no second poll. -/
theorem load_pointer_eq_reading (a : Word) :
    (m.reading [a]).load (m.seen a) = (m.seen (m.seen a), m.reading [a, m.seen a]) := by
  by_cases status : a = keyboardStatus
  · have pointer : m.seen a = 0 ∨ m.seen a = 0x8000 := by
      rw [seen, if_pos status]
      split <;> simp
    have quiet : m.seen a ≠ keyboardStatus := by rcases pointer with h | h <;> rw [h] <;> decide
    have other : m.seen a ≠ keyboardData := by rcases pointer with h | h <;> rw [h] <;> decide
    have shown : (m.reading [a]).peek (m.seen a) = m.seen (m.seen a) := by
      rw [peek_reading, afterReads, if_pos (by simp [status]), if_neg other]
    rw [load_of_ne quiet, shown]
    simp [reading, status]
  · have still : m.reading [a] = m := if_neg (by simpa using Ne.symm status)
    rw [still, load_eq_reading, reading, reading]
    simp [Ne.symm status]

end Machine

/-- What a completed instruction does to a machine. The flag shows the sign of the written word if
that is a result. -/
structure Effect where
  next : Word
  reads : List Word := []
  written : Option (Register × Word) := none
  isResult : Bool := false
  stored : Option (Word × Word) := none
  takes : Bool := false
  puts : List Word := []
  halts : Bool := false

namespace Effect

/-- The instruction leaves a result and goes on. -/
def result (m : Machine) (d : Register) (w : Word) : Effect :=
  { next := m.pc + 1, written := some (d, w), isResult := true }

/-- A step from `m` has completed with this effect and no other. -/
structure Describes (e : Effect) (m : Machine) (done : Machine.Result) : Prop where
  outcome : done.1 = .ok (if e.halts then .halted else .executed)
  pc : done.2.pc = e.next
  register : ∀ r w, e.written = some (r, w) → done.2.register r = w
  otherRegisters : ∀ r, (∀ w, e.written ≠ some (r, w)) → done.2.register r = m.register r
  flag : done.2.flag =
    if e.isResult then e.written.map fun write => .ofInt write.2.toInt else m.flag
  cell : ∀ a w, e.stored = some (a, w) → done.2.peek a = w
  otherCells : ∀ a, (∀ w, e.stored ≠ some (a, w)) → done.2.peek a = m.afterReads e.reads a
  input : done.2.input.items =
    if e.takes || e.reads.contains Machine.keyboardStatus then m.input.items.tail
    else m.input.items
  output : done.2.output.items = m.output.items ++ e.puts
  capacities : done.2.input.capacity = m.input.capacity ∧
    done.2.output.capacity = m.output.capacity
  running : done.2.running = (m.running && !e.halts)
  executed : done.2.executed = m.executed + 1

namespace Describes

variable {e : Effect} {m n : Machine}

/-- An instruction that only reads. -/
theorem of_reads (m : Machine) (reads : List Word) :
    Describes { next := m.pc + 1, reads := reads } m
      (({ m with pc := m.pc + 1 }.reading reads).completed .executed) := by
  have frame := Machine.reading_eq { m with pc := m.pc + 1 } reads
  have cells := Machine.peek_reading { m with pc := m.pc + 1 } reads
  obtain ⟨items, capacity⟩ := Machine.input_reading { m with pc := m.pc + 1 } reads
  rw [frame] at cells items capacity ⊢
  exact {
    outcome := rfl
    pc := rfl
    register := nofun
    otherRegisters := fun r _ => rfl
    flag := rfl
    cell := nofun
    otherCells := fun a _ => cells a
    input := items.trans (by simp)
    output := (List.append_nil _).symm
    capacities := ⟨capacity, rfl⟩
    running := (Bool.and_true _).symm
    executed := rfl }

theorem of_nothing (m : Machine) :
    Describes { next := m.pc + 1 } m ({ m with pc := m.pc + 1 }.completed .executed) :=
  of_reads m []

/-- The instruction goes on elsewhere. -/
theorem goto (done : e.Describes m (n.completed .executed)) (target : Word) :
    Describes { e with next := target } m ({ n with pc := target }.completed .executed) :=
  { done with pc := rfl }

/-- The instruction also writes a register. -/
theorem setRegister (done : e.Describes m (n.completed .executed)) (none : e.written = none)
    (plain : e.isResult = false) (d : Register) (w : Word) :
    Describes { e with written := some (d, w) } m ((n.setRegister d w).completed .executed) where
  outcome := done.outcome
  pc := done.pc
  register := by
    rintro _ _ ⟨⟩
    exact (n.register_setRegister d d w).trans (if_pos rfl)
  otherRegisters := by
    intro r other
    have apart : d ≠ r := fun same => other w (by rw [same])
    exact ((n.register_setRegister d r w).trans (if_neg apart)).trans
      (done.otherRegisters r fun v => by simp [none])
  flag := by
    have kept := done.flag
    rw [plain] at kept ⊢
    exact kept
  cell := done.cell
  otherCells := done.otherCells
  input := done.input
  output := done.output
  capacities := done.capacities
  running := done.running
  executed := done.executed

/-- The instruction also leaves a result. -/
theorem setResult (done : e.Describes m (n.completed .executed)) (none : e.written = none)
    (plain : e.isResult = false) (d : Register) (w : Word) :
    Describes { e with written := some (d, w), isResult := true } m
      ((n.setResult d w).completed .executed) :=
  { done.setRegister none plain d w with flag := congrArg some (Sign.ofInt_toInt w).symm }

/-- The instruction also stores. -/
theorem write (done : e.Describes m (n.completed .executed)) (none : e.stored = none)
    (a w : Word) :
    Describes { e with stored := some (a, w) } m ((n.write a w).completed .executed) :=
  { done with
    cell := by
      rintro _ _ ⟨⟩
      exact (n.peek_write a a w).trans (if_pos rfl)
    otherCells := by
      intro b other
      have apart : a ≠ b := fun same => other w (by rw [same])
      exact ((n.peek_write a b w).trans (if_neg apart)).trans
        (done.otherCells b fun v => by simp [none]) }

end Describes

end Effect

/-- What a step makes of an instruction: it completes, or changes nothing and will be tried again, or
has a text of more words than can ever be queued. -/
inductive Deed
  | completes (e : Effect)
  | waits (o : Outcome)
  | overflows (length : Nat)

namespace Deed

/-- After a step that waits the machine is as before. After a fault it has fetched the trap. -/
def Describes (m : Machine) (done : Machine.Result) : Deed → Prop
  | completes e => e.Describes m done
  | waits o => done = (.ok o, m)
  | overflows length =>
    done = (.error (.outputOverflow m.pc length m.output.capacity), { m with pc := m.pc + 1 })

/-- A text enters the queue as a whole or not at all. -/
def puts (m : Machine) (text : List Word) : Deed :=
  if m.output.capacity < text.length then overflows text.length
  else if m.output.capacity < m.output.items.length + text.length then waits .waitingForOutput
  else completes { next := m.pc + 1, puts := text }

theorem retried_eq (m : Machine) (o : Outcome) :
    { m with pc := m.pc + 1 }.retried o = (.ok o, m) := by
  have counter : m.pc + 1 - 1 = m.pc := BitVec.add_sub_cancel m.pc 1
  simp only [Machine.retried, counter]

theorem describes_puts (m : Machine) (text : List Word) :
    (puts m text).Describes m ({ m with pc := m.pc + 1 }.writeText text) := by
  rw [puts]
  by_cases large : m.output.capacity < text.length
  · have counter : m.pc + 1 - 1 = m.pc := BitVec.add_sub_cancel m.pc 1
    rw [if_pos large, Machine.writeText, if_pos large]
    simp only [Describes, counter]
  · rw [if_neg large]
    by_cases full : m.output.capacity < m.output.items.length + text.length
    · rw [if_pos full]
      have crowded : m.output.free < text.length := by
        have bounded := m.output.length_le
        rw [Queue.free, Queue.length]
        omega
      have waits := Machine.writeText_of_no_room (m := { m with pc := m.pc + 1 }) crowded
        (Nat.le_of_not_lt large)
      exact waits.trans (retried_eq m _)
    · rw [if_neg full]
      have room : text.length ≤ m.output.free := by
        rw [Queue.free, Queue.length]
        omega
      obtain ⟨output, items, capacity, written⟩ :=
        Machine.writeText_of_room (m := { m with pc := m.pc + 1 }) room
      rw [written]
      exact { Effect.Describes.of_nothing m with output := items, capacities := ⟨rfl, capacity⟩ }

end Deed

namespace TrapRoutine

def all : List TrapRoutine := [.getc, .out, .puts, .echo, .putsp, .halt]

/-- A vector is that of a routine or of none. -/
theorem ofVector?_eq_find? (v : BitVec 8) :
    ofVector? v = all.find? fun t => t.vector.setWidth 16 = v.setWidth 16 := by
  revert v
  decide +kernel

def deed (m : Machine) : TrapRoutine → Deed
  | .getc =>
    match m.input.items with
    | [] => .waits .waitingForInput
    | w :: _ => .completes { next := m.pc + 1, written := some (.r0, w), takes := true }
  | .out => .puts m [m.register .r0 &&& 0xFF]
  | .puts => .puts m (m.memory.textAt (m.register .r0) (m.output.capacity + 1))
  | .putsp => .puts m (m.memory.packedTextAt (m.register .r0) (m.output.capacity + 1))
  | .echo =>
    match m.input.items with
    | [] => .waits .waitingForInput
    | w :: _ =>
      if m.output.capacity ≤ m.output.items.length then .waits .waitingForOutput
      else .completes
        { next := m.pc + 1, written := some (.r0, w), takes := true, puts := [w &&& 0xFF] }
  | .halt => .completes { next := m.pc + 1, halts := true }

theorem describes_deed (t : TrapRoutine) (m : Machine) :
    (t.deed m).Describes m ({ m with pc := m.pc + 1 }.serve t) := by
  cases t with
  | out =>
    rw [deed, ← Word.ofByte_lowByte]
    exact Deed.describes_puts m _
  | puts | putsp => exact Deed.describes_puts m _
  | halt =>
    exact { Effect.Describes.of_nothing m with outcome := rfl, running := (Bool.and_false _).symm }
  | getc =>
    cases front : m.input.items with
    | nil =>
      simp only [deed, front, Machine.serve, Queue.pop?_eq_none_iff.mpr front]
      exact Deed.retried_eq m _
    | cons w ws =>
      obtain ⟨rest, popped, items, capacity⟩ := Queue.exists_pop? front
      have written := (Effect.Describes.of_nothing m).setRegister rfl rfl .r0 w
      simp only [deed, front, Machine.serve, popped]
      exact { written with
        input := by simp [Machine.completed, Machine.setRegister, front, items]
        capacities := ⟨capacity, rfl⟩ }
  | echo =>
    cases front : m.input.items with
    | nil =>
      simp only [deed, front, Machine.serve, Queue.pop?_eq_none_iff.mpr front]
      exact Deed.retried_eq m _
    | cons w ws =>
      obtain ⟨rest, popped, items, capacity⟩ := Queue.exists_pop? front
      simp only [deed, front, Machine.serve, popped]
      by_cases full : m.output.capacity ≤ m.output.items.length
      · have refused : m.output.push? (Word.ofByte w.lowByte) = none :=
          Queue.push?_eq_none_iff.mpr (decide_eq_true full)
        rw [if_pos full, refused]
        exact Deed.retried_eq m _
      · have room : [Word.ofByte w.lowByte].length ≤ m.output.free := by
          rw [Queue.free, Queue.length, List.length_singleton]
          omega
        obtain ⟨output, pushed, queued, capacity'⟩ := Queue.exists_append? room
        have written := (Effect.Describes.of_nothing m).setRegister rfl rfl .r0 w
        rw [if_neg full, Queue.push?, pushed, ← Word.ofByte_lowByte]
        exact { written with
          input := by simp [Machine.completed, Machine.setRegister, front, items]
          output := queued
          capacities := ⟨capacity, capacity'⟩ }

end TrapRoutine

end LC3
