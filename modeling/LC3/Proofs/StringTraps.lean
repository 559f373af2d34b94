import LC3.Proofs.StepEndings

/-!
# String traps

A string trap collects characters from memory, a word at a time, until it comes to a zero or has more
than the output queue can hold. So it comes to an end in any memory. What it writes is the string up to
the first zero, if the queue can hold that; a longer string, or one without an end, is a fault.
-/

namespace LC3

namespace Memory

/-- The first zero among the characters from the address on has this index. -/
structure EndsAt (m : Memory) (packed : Bool) (a : Word) (n : Nat) : Prop where
  zero : m.character packed a n = 0
  nonzero : ∀ i < n, m.character packed a i ≠ 0

def charactersIn (packed : Bool) (w : Word) : List Word :=
  if packed then [Word.ofByte w.lowByte, Word.ofByte w.highByte] else [w]

/-- With the characters `before` there already, collecting goes on at the address, reads so many words
and comes to the text. It stops at a zero, and in front of a word if there are as many characters as
the limit says. -/
inductive Collects (m : Memory) (packed : Bool) (limit : Nat) :
    (before : List Word) → (a : Word) → (words : Nat) → (text : List Word) → Prop
  | full {before : List Word} {a : Word} (enough : limit ≤ before.length) :
      Collects m packed limit before a 0 before
  | ended {before cs after : List Word} {a : Word} (short : before.length < limit)
      (zero : charactersIn packed (m.read a) = cs ++ 0 :: after) (nonzero : 0 ∉ cs) :
      Collects m packed limit before a 1 (before ++ cs)
  | next {before : List Word} {a : Word} {words : Nat} {text : List Word}
      (short : before.length < limit) (nonzero : 0 ∉ charactersIn packed (m.read a))
      (others : Collects m packed limit (before ++ charactersIn packed (m.read a)) (a + 1) words
        text) : Collects m packed limit before a (words + 1) text

def wordsFor (packed : Bool) (n : Nat) : Nat := if packed then (n + 1) / 2 else n

def collected (m : Memory) (packed : Bool) (a : Word) (words : Nat) : List Word :=
  ((m.readMany a words).flatMap (charactersIn packed)).takeWhile (· ≠ 0)

variable {m : Memory} {packed : Bool} {a : Word} {n limit : Nat}

theorem readMany_succ (m : Memory) (a : Word) (n : Nat) :
    m.readMany a (n + 1) = m.read a :: m.readMany (a + 1) n := by
  have first : a + BitVec.ofNat 16 0 = a := BitVec.add_zero a
  have later : ∀ i, a + BitVec.ofNat 16 (i + 1) = a + 1 + BitVec.ofNat 16 i := by
    intro i
    rw [BitVec.ofNat_add, BitVec.add_comm (BitVec.ofNat 16 i), BitVec.add_assoc]
    rfl
  simp only [readMany, List.range_succ_eq_map, List.map_cons, List.map_map, Function.comp_def,
    Nat.succ_eq_add_one, first, later]

theorem collected_zero {words : Nat} {cs after : List Word}
    (zero : charactersIn packed (m.read a) = cs ++ 0 :: after) (nonzero : ∀ c ∈ cs, c ≠ 0) :
    m.collected packed a (words + 1) = cs := by
  rw [collected, readMany_succ, List.flatMap_cons, zero, List.append_assoc,
    takeWhile_append_of_nonzero nonzero, List.cons_append, List.takeWhile_cons_of_neg (by simp),
    List.append_nil]

theorem collected_next {words : Nat} (nonzero : ∀ c ∈ charactersIn packed (m.read a), c ≠ 0) :
    m.collected packed a (words + 1) =
      charactersIn packed (m.read a) ++ m.collected packed (a + 1) words := by
  rw [collected, readMany_succ, List.flatMap_cons, takeWhile_append_of_nonzero nonzero, collected]

/-- Collecting comes to an end in any memory. It reads no more words than those that hold the
characters up to the limit. -/
theorem collects_collected {before : List Word} {words : Nat}
    (left : wordsFor packed (limit - before.length) = words) :
    ∃ read ≤ words, m.Collects packed limit before a read (before ++ m.collected packed a words) := by
  induction words generalizing before a with
  | zero =>
    have enough : limit ≤ before.length := by
      unfold wordsFor at left
      split at left <;> omega
    have nothing : m.collected packed a 0 = [] := rfl
    rw [nothing, List.append_nil]
    exact ⟨0, Nat.le_refl 0, .full enough⟩
  | succ words ih =>
    have short : before.length < limit := by
      unfold wordsFor at left
      split at left <;> omega
    by_cases zero : 0 ∈ charactersIn packed (m.read a)
    · obtain ⟨cs, after, split, nonzero⟩ := List.eq_append_cons_of_mem zero
      rw [collected_zero split fun c present same => nonzero (same ▸ present)]
      exact ⟨1, by omega, .ended short split nonzero⟩
    · have left' : wordsFor packed
          (limit - (before ++ charactersIn packed (m.read a)).length) = words := by
        unfold wordsFor at left ⊢
        cases packed <;> simp [charactersIn] at left ⊢ <;> omega
      obtain ⟨read, few, collects⟩ := ih (a := a + 1) left'
      rw [List.append_assoc, ← collected_next fun c present same => zero (same ▸ present)]
        at collects
      exact ⟨read + 1, by omega, .next short zero collects⟩

/-- The characters collected are those with the first indices, up to the first zero. -/
theorem collected_eq (m : Memory) (packed : Bool) (a : Word) (limit : Nat) :
    ∃ n, limit ≤ n ∧ n ≤ limit + 1 ∧ m.collected packed a (wordsFor packed limit) =
      ((List.range n).map (m.character packed a)).takeWhile (· ≠ 0) := by
  cases packed with
  | false =>
    refine ⟨limit, Nat.le_refl limit, Nat.le_succ limit, ?_⟩
    have single : charactersIn false = fun w => [w] := rfl
    rw [collected, single, List.flatMap_singleton']
    rfl
  | true =>
    refine ⟨2 * ((limit + 1) / 2), by omega, by omega, ?_⟩
    rw [← flatMap_readMany]
    rfl

/-- A string that ends below the limit is collected whole. -/
theorem collected_of_endsAt (ends : m.EndsAt packed a n) (inside : n < limit) :
    m.collected packed a (wordsFor packed limit) = (List.range n).map (m.character packed a) := by
  obtain ⟨k, large, -, collected⟩ := m.collected_eq packed a limit
  rw [collected, takeWhile_range_of_zero _ ends.zero ends.nonzero (Nat.lt_of_lt_of_le inside large)]

/-- A string with no zero below the limit is collected as far as the limit, and one character more at
most. -/
theorem length_collected (nonzero : ∀ i < limit, m.character packed a i ≠ 0) :
    limit ≤ (m.collected packed a (wordsFor packed limit)).length ∧
      (m.collected packed a (wordsFor packed limit)).length ≤ limit + 1 := by
  obtain ⟨k, large, small, collected⟩ := m.collected_eq packed a limit
  obtain ⟨extra, rfl⟩ := Nat.exists_eq_add_of_le large
  have inside : ∀ c ∈ (List.range limit).map (m.character packed a), c ≠ 0 := by
    simpa using nonzero
  rw [collected]
  constructor
  · rw [List.range_add, List.map_append, takeWhile_append_of_nonzero inside, List.length_append,
      List.length_map, List.length_range]
    exact Nat.le_add_right limit _
  · have shorter := (List.takeWhile_sublist (l := (List.range (limit + extra)).map
      (m.character packed a)) (· ≠ 0)).length_le
    rw [List.length_map, List.length_range] at shorter
    omega

end Memory

namespace TrapRoutine

def string (packed : Bool) : TrapRoutine := if packed then .putsp else .puts

end TrapRoutine

namespace Machine

variable {m : Machine} {packed : Bool} {n : Nat}

/-- A string trap writes what it collects. -/
theorem serve_string (m : Machine) (packed : Bool) :
    m.serve (.string packed) = m.writeText (m.memory.collected packed (m.register .r0)
      (Memory.wordsFor packed (m.output.capacity + 1))) := by
  cases packed with
  | false =>
    have single : Memory.charactersIn false = fun w => [w] := rfl
    rw [Memory.collected, single, List.flatMap_singleton']
    rfl
  | true => rfl

/-- The only load of a step that serves a routine is that of the trap. -/
theorem stepLoads_of_routine? {t : TrapRoutine}
    (fetched : (Instruction.decode m.fetch.1).routine? = some t) : m.stepLoads = [m.pc] := by
  rw [stepLoads, loads_of_routine? fetched]

/-- At a string trap, the step writes what collecting the string comes to, and collecting it comes to
an end in any memory. With the first zero at an index that is not beyond the capacity of the output,
the step appends the characters before it, or waits and changes nothing if there is no room for all of
them. With no zero up to there, the step faults with more characters than the capacity and queues none
of them. It loads from no other address than the trap's, which is no keyboard cell, and changes neither
the memory nor the input. -/
theorem string_step (running : m.running = true)
    (fetched : (Instruction.decode m.fetch.1).routine? = some (.string packed)) :
    let start := m.register .r0
    let capacity := m.output.capacity
    (∀ n, m.memory.EndsAt packed start n → n ≤ capacity →
      (n ≤ m.output.free → ∃ output : Queue,
        output.items = m.output.items ++ (List.range n).map (m.memory.character packed start) ∧
        output.capacity = capacity ∧
        m.step = (.ok .executed,
          { m with pc := m.pc + 1, executed := m.executed + 1, output := output })) ∧
      (m.output.free < n → m.step = (.ok .waitingForOutput, m))) ∧
    ((∀ i ≤ capacity, m.memory.character packed start i ≠ 0) →
      ∃ length, capacity < length ∧ length ≤ capacity + 2 ∧
        m.step = (.error (.outputOverflow m.pc length capacity), { m with pc := m.pc + 1 })) ∧
    (∃ words ≤ capacity + 1, ∃ text,
      m.memory.Collects packed (capacity + 1) [] start words text ∧
        m.step = { m with pc := m.pc + 1 }.writeText text) ∧
    m.stepLoads = [m.pc] ∧ m.pc ≠ keyboardStatus ∧
    m.step.2.memory = m.memory ∧ m.step.2.input = m.input := by
  intro start capacity
  have counter : m.pc + 1 - 1 = m.pc := BitVec.add_sub_cancel m.pc 1
  have writes : m.step = { m with pc := m.pc + 1 }.writeText
      (m.memory.collected packed start (Memory.wordsFor packed (capacity + 1))) :=
    (step_of_routine? running fetched).trans (serve_string _ packed)
  refine ⟨fun n ends small => ?_, fun nonzero => ?_, ?_, stepLoads_of_routine? fetched,
    pc_ne_of_routine? fetched, ?_⟩
  · have whole := Memory.collected_of_endsAt ends (Nat.lt_succ_of_le small)
    have size : (m.memory.collected packed start (Memory.wordsFor packed (capacity + 1))).length =
        n := by rw [whole, List.length_map, List.length_range]
    constructor
    · intro room
      obtain ⟨output, items, same, written⟩ :=
        writeText_of_room (m := { m with pc := m.pc + 1 }) (size ▸ room)
      exact ⟨output, whole ▸ items, same, writes.trans written⟩
    · intro full
      have waits := writeText_of_no_room (m := { m with pc := m.pc + 1 }) (size.symm ▸ full)
        (size.symm ▸ small)
      rw [writes, waits]
      simp only [retried, counter]
  · have nonzero' : ∀ i < capacity + 1, m.memory.character packed start i ≠ 0 :=
      fun i inside => nonzero i (Nat.le_of_lt_succ inside)
    obtain ⟨large, small⟩ := Memory.length_collected nonzero'
    refine ⟨_, large, small, writes.trans ?_⟩
    exact writeText_eq_error_iff.mpr ⟨rfl, large, by simp only [counter]; rfl⟩
  · obtain ⟨read, few, collects⟩ : ∃ read ≤ Memory.wordsFor packed (capacity + 1),
        m.memory.Collects packed (capacity + 1) [] start read
          (m.memory.collected packed start (Memory.wordsFor packed (capacity + 1))) :=
      Memory.collects_collected rfl
    refine ⟨read, Nat.le_trans few ?_, _, collects, writes⟩
    unfold Memory.wordsFor
    split <;> omega
  · obtain ⟨pc, executed, output, frame⟩ :=
      frame_writeText { m with pc := m.pc + 1 }
        (m.memory.collected packed start (Memory.wordsFor packed (capacity + 1)))
    rw [writes, frame]
    exact ⟨rfl, rfl⟩

def wrappedString (trap : Word) (output : Queue) : Machine :=
  { (withCapacity 0).writeAll 0xFFFE [trap, 0x4241, 0x0043] with
    pc := 0xFFFE
    running := true
    registers := Registers.zero.set .r0 0xFFFF
    output := output }

theorem peek_wrappedString (trap : Word) (output : Queue) (a : Word) :
    (wrappedString trap output).peek a =
      if 0 = a then 0x0043 else if 0xFFFF = a then 0x4241 else if 0xFFFE = a then trap else 0 := by
  simp [wrappedString, withCapacity, writeAll, Memory.writeAll, peek, Memory.read_write]

/-- The three packed characters fill an output of capacity three, and wait if there is a word in it.
As two characters of a word each they are too many for an output of capacity one. -/
theorem wrappedString_steps :
    let packed := wrappedString 0xF024
    let single := wrappedString 0xF022 ⟨[], 1, by decide⟩
    (∃ output : Queue, output.items = [0x41, 0x42, 0x43] ∧
      (packed ⟨[], 3, by decide⟩).step = (.ok .executed,
        { packed ⟨[], 3, by decide⟩ with pc := 0xFFFF, executed := 1, output := output })) ∧
    (packed ⟨[0x58], 3, by decide⟩).step =
      (.ok .waitingForOutput, packed ⟨[0x58], 3, by decide⟩) ∧
    ∃ length, 1 < length ∧ single.step =
      (.error (.outputOverflow 0xFFFE length 1), { single with pc := 0xFFFF }) := by
  intro packed single
  have fetches : ∀ trap output, (wrappedString trap output).fetch.1 = trap := by
    intro trap output
    rw [fetch_of_ne (show (0xFFFE : Word) ≠ keyboardStatus by decide)]
    exact peek_wrappedString trap output 0xFFFE
  have cell : ∀ trap output a, (wrappedString trap output).memory.read a =
      if 0 = a then 0x0043 else if 0xFFFF = a then 0x4241 else if 0xFFFE = a then trap else 0 :=
    peek_wrappedString
  have bytes : ∀ output, (packed output).memory.character true 0xFFFF 0 = 0x41 ∧
      (packed output).memory.character true 0xFFFF 1 = 0x42 ∧
      (packed output).memory.character true 0xFFFF 2 = 0x43 ∧
      (packed output).memory.character true 0xFFFF 3 = 0 := by
    intro output
    simp only [packed, Memory.character, cell]
    decide
  have ends : ∀ output, (packed output).memory.EndsAt true 0xFFFF 3 := by
    intro output
    obtain ⟨first, second, third, last⟩ := bytes output
    refine ⟨last, fun i inside => ?_⟩
    obtain rfl | rfl | rfl : i = 0 ∨ i = 1 ∨ i = 2 := by omega
    · rw [first]
      decide
    · rw [second]
      decide
    · rw [third]
      decide
  have words : ∀ i ≤ 1, single.memory.character false 0xFFFF i ≠ 0 := by
    intro i inside
    obtain rfl | rfl : i = 0 ∨ i = 1 := by omega
    all_goals
      simp only [single, Memory.character, cell]
      decide
  have start : ∀ trap output, (wrappedString trap output).register .r0 = 0xFFFF :=
    fun _ _ => (Registers.get_set ..).trans (if_pos rfl)
  have at_trap : ∀ output,
      (Instruction.decode (packed output).fetch.1).routine? = some (.string true) := by
    intro output
    rw [fetches]
    rfl
  refine ⟨?_, ?_, ?_⟩
  · obtain ⟨appends, -⟩ := string_step (m := packed ⟨[], 3, by decide⟩) rfl (at_trap _)
    rw [start] at appends
    obtain ⟨output, items, -, step⟩ := (appends 3 (ends _) (by decide)).1 (by decide)
    obtain ⟨first, second, third, -⟩ := bytes ⟨[], 3, by decide⟩
    refine ⟨output, items.trans ?_, step⟩
    simp only [List.range_succ_eq_map, List.range_zero, List.map_cons, List.map_nil]
    rw [first, second, third]
    rfl
  · obtain ⟨waits, -⟩ := string_step (m := packed ⟨[0x58], 3, by decide⟩) rfl (at_trap _)
    rw [start] at waits
    exact (waits 3 (ends _) (by decide)).2 (by decide)
  · have at_single : (Instruction.decode single.fetch.1).routine? = some (.string false) := by
      rw [fetches]
      rfl
    obtain ⟨-, faults, -⟩ := string_step rfl at_single
    rw [start] at faults
    obtain ⟨length, large, -, step⟩ := faults words
    exact ⟨length, large, step⟩

end Machine

end LC3
