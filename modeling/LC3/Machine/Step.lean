import LC3.Machine

/-!
# One step

A step fetches the word at the program counter, increments the counter and performs the
instruction. A character trap that cannot be served puts the counter back and changes nothing, and
a string trap writes its whole text or nothing. Only completed instructions are counted.
-/

namespace LC3.Machine

/-- An outcome or a fault, with the state it leaves. -/
abbrev Result := Except Fault Outcome × Machine

/-- The register that three bits of the word name, from bit `start` up. -/
def fieldRegister (m : Machine) (word : Word) (start : Nat) : Word :=
  m.register (.ofField word start)

/-- The address that the low `n` bits of the word reach from the program counter. -/
def offsetAddress (m : Machine) (word : Word) (n : Nat) : Word := m.pc + word.signedField 0 n

/-- The address that the low six bits of the word reach from a base register. -/
def baseAddress (m : Machine) (word : Word) : Word :=
  m.fieldRegister word 6 + word.signedField 0 6

/-- The second operand of an addition or conjunction: a register or, with bit 5 set, a value. -/
def secondOperand (m : Machine) (word : Word) : Word :=
  if word.unsignedField 5 1 = 0 then m.fieldRegister word 0 else word.signedField 0 5

/-- Writes a result register and keeps the sign of the result. -/
def setResult (m : Machine) (r : Register) (w : Word) : Machine :=
  { m with registers := m.registers.set r w, flag := some (Sign.ofWord w) }

def completed (m : Machine) (outcome : Outcome) : Result :=
  (.ok outcome, { m with executed := m.executed + 1 })

/-- An instruction that has to be tried again. -/
def retried (m : Machine) (outcome : Outcome) : Result := (.ok outcome, { m with pc := m.pc - 1 })

/-- Queues the whole text, waits while it does not fit, and faults when it never can. -/
def writeText (m : Machine) (text : List Word) : Result :=
  if m.output.capacity < text.length then
    (.error (.outputOverflow (m.pc - 1) text.length m.output.capacity), m)
  else
    match m.output.append? text with
    | some output => { m with output := output }.completed .executed
    | none => m.retried .waitingForOutput

/-- The longest text worth collecting: one more than can ever be queued. -/
def textLimit (m : Machine) : Nat := m.output.capacity + 1

def serve (m : Machine) : TrapRoutine → Result
  | .getc =>
    match m.input.pop? with
    | some (w, rest) => ({ m with input := rest }.setRegister .r0 w).completed .executed
    | none => m.retried .waitingForInput
  | .echo =>
    match m.input.pop? with
    | none => m.retried .waitingForInput
    | some (w, rest) =>
      match m.output.push? (Word.ofByte w.lowByte) with
      | none => m.retried .waitingForOutput
      | some output =>
        ({ m with input := rest, output := output }.setRegister .r0 w).completed .executed
  | .out => m.writeText [Word.ofByte (m.register .r0).lowByte]
  | .puts => m.writeText (m.memory.textAt (m.register .r0) m.textLimit)
  | .putsp => m.writeText (m.memory.packedTextAt (m.register .r0) m.textLimit)
  | .halt => m.stop.completed .halted

/-- A vector without a service routine calls the address in the vector table. -/
def callVector (m : Machine) (vector : Word) : Machine :=
  let (entry, m) := (m.setRegister .r7 m.pc).load vector
  { m with pc := entry }

/-- Performs the instruction in a word; the program counter is past it already. Bits that the class
of the word does not use are not looked at. -/
def execute (m : Machine) (word : Word) : Result :=
  match Opcode.ofWord word with
  | .br =>
    let condition := Condition.ofBits (word.field 9 3)
    (if condition.accepts m.flag then { m with pc := m.offsetAddress word 9 } else m).completed
      .executed
  | .add =>
    (m.setResult (.ofField word 9) (m.fieldRegister word 6 + m.secondOperand word)).completed
      .executed
  | .and =>
    (m.setResult (.ofField word 9) (m.fieldRegister word 6 &&& m.secondOperand word)).completed
      .executed
  | .not => (m.setResult (.ofField word 9) (~~~m.fieldRegister word 6)).completed .executed
  | .ld =>
    let (w, m) := m.load (m.offsetAddress word 9)
    (m.setResult (.ofField word 9) w).completed .executed
  | .ldi =>
    let (p, m) := m.load (m.offsetAddress word 9)
    let (w, m) := m.load p
    (m.setResult (.ofField word 9) w).completed .executed
  | .ldr =>
    let (w, m) := m.load (m.baseAddress word)
    (m.setResult (.ofField word 9) w).completed .executed
  | .lea => (m.setResult (.ofField word 9) (m.offsetAddress word 9)).completed .executed
  | .st => (m.write (m.offsetAddress word 9) (m.fieldRegister word 9)).completed .executed
  | .sti =>
    let w := m.fieldRegister word 9
    let (p, m) := m.load (m.offsetAddress word 9)
    (m.write p w).completed .executed
  | .str => (m.write (m.baseAddress word) (m.fieldRegister word 9)).completed .executed
  | .jmp => { m with pc := m.fieldRegister word 6 }.completed .executed
  | .jsr =>
    -- The link register is written before a base register is read.
    let m := m.setRegister .r7 m.pc
    if word.unsignedField 11 1 = 1 then { m with pc := m.offsetAddress word 11 }.completed .executed
    else { m with pc := m.fieldRegister word 6 }.completed .executed
  | .trap =>
    let vector := word.unsignedField 0 8
    match TrapRoutine.ofWord? vector with
    | some t => m.serve t
    | none => (m.callVector vector).completed .executed
  | .rti => (.error (.badInstruction (m.pc - 1) word), m)
  | .reserved => (.error (.badInstruction (m.pc - 1) word), m)

/-- The word at the program counter, which moves past it. -/
def fetch (m : Machine) : Word × Machine :=
  let (word, m) := m.load m.pc
  (word, { m with pc := m.pc + 1 })

/-- Fetches and performs one instruction of a running machine. -/
def step (m : Machine) : Result :=
  if m.running then
    let (word, m) := m.fetch
    m.execute word
  else (.error .notRunning, m)

/-!
## Runs

A run starts the machine and steps until something other than a completed instruction happens or
the limit is reached. The instruction counter of the machine is meant to hold 64 bits, and a run
without a limit goes on for as many instructions as that.
-/

/-- At most `n` steps, as long as each completes. -/
def runFor : Nat → Machine → Result
  | 0, m => (.ok .executed, m)
  | n + 1, m =>
    match m.step with
    | (.ok .executed, m) => runFor n m
    | (.ok outcome, m) => (.ok outcome, m)
    | (.error fault, m) => (.error fault, m)

/-- How far a run without a limit goes. -/
def longestRun : Nat := UInt64.size

def run (limit : Option Nat) (m : Machine) : Result := m.start.runFor (limit.getD longestRun)

end LC3.Machine
