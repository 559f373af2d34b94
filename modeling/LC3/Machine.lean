import LC3.Symbol
import LC3.Memory
import LC3.Queue
import LC3.Text

/-!
# The machine

The complete state, and the operations that the host has on it. Reading the keyboard status cell
polls the keyboard: a waiting input word moves into the data cell and the top bit of the status is
set, and with no input the status is cleared.
-/

namespace LC3

/-- What one step did. Both kinds of waiting leave the program counter on the trap, so that the
next step tries it again. -/
inductive Outcome
  | executed
  | halted
  | waitingForInput
  | waitingForOutput
deriving DecidableEq

inductive Fault
  | notRunning
  | running
  | badInstruction (address instruction : Word)
  | outputOverflow (address : Word) (length capacity : Nat)
deriving DecidableEq

def Fault.message : Fault → String
  | .notRunning => "vm is not running"
  | .running => "vm is running"
  | .badInstruction address instruction =>
    "bad instruction 0x" ++ String.ofList (Hex.fixed 4 instruction.toNat) ++
      " at 0x" ++ String.ofList (Hex.fixed 4 address.toNat)
  | .outputOverflow address length capacity =>
    "trap at 0x" ++ String.ofList (Hex.fixed 4 address.toNat) ++ " writes " ++ length.repr ++
      " characters, output holds at most " ++ capacity.repr

/-- Memory, registers, program counter, the sign of the last result, the run state, the number of
completed instructions and the two queues. -/
structure Machine where
  memory : Memory
  pc : Word
  registers : Registers
  flag : Option Sign
  running : Bool
  executed : Nat
  input : Queue
  output : Queue

namespace Machine

def keyboardStatus : Word := 0xFE00

def keyboardData : Word := 0xFE02

/-- A stopped machine, all zero, with empty queues. -/
def withCapacity (capacity : Nat) : Machine where
  memory := .zero
  pc := 0
  registers := .zero
  flag := none
  running := false
  executed := 0
  input := .empty capacity
  output := .empty capacity

def new : Machine := withCapacity Queue.defaultCapacity

def start (m : Machine) : Machine := { m with running := true }

def stop (m : Machine) : Machine := { m with running := false }

/-- Moves the program counter of a stopped machine. -/
def setOrigin (m : Machine) (origin : Word) : Except Fault Machine :=
  if m.running then .error .running else .ok { m with pc := origin }

def register (m : Machine) (r : Register) : Word := m.registers.get r

def setRegister (m : Machine) (r : Register) (w : Word) : Machine :=
  { m with registers := m.registers.set r w }

/-- The cell's value, without an effect on the keyboard. -/
def peek (m : Machine) (a : Word) : Word := m.memory.read a

def write (m : Machine) (a w : Word) : Machine := { m with memory := m.memory.write a w }

def writeAll (m : Machine) (a : Word) (ws : List Word) : Machine :=
  { m with memory := m.memory.writeAll a ws }

/-- Moves a waiting input word into the keyboard cells, or clears the status. -/
def pollKeyboard (m : Machine) : Machine :=
  match m.input.pop? with
  | some (w, rest) =>
    { m with
      memory := (m.memory.write keyboardStatus 0x8000).write keyboardData w
      input := rest }
  | none => m.write keyboardStatus 0

/-- Reads a cell as the program does: the keyboard status cell is polled first. -/
def load (m : Machine) (a : Word) : Word × Machine :=
  let m := if a = keyboardStatus then m.pollKeyboard else m
  (m.peek a, m)

theorem register_setRegister (m : Machine) (d r : Register) (w : Word) :
    (m.setRegister d w).register r = if d = r then w else m.register r :=
  Registers.get_set ..

theorem peek_write (m : Machine) (a b w : Word) :
    (m.write a w).peek b = if a = b then w else m.peek b :=
  Memory.read_write ..

theorem peek_writeAll (m : Machine) (a b : Word) {ws : List Word}
    (fits : ws.length ≤ 65536) :
    (m.writeAll a ws).peek b = ws[(b - a).toNat]?.getD (m.peek b) :=
  m.memory.read_writeAll a b fits

/-- The cells of a new machine with words written from the first address on. -/
theorem peek_new_writeAll {ws : List Word} (fits : ws.length ≤ 65536) (a : Word) :
    (new.writeAll 0 ws).peek a = ws[a.toNat]?.getD 0 := by
  have distance : a - 0 = a := BitVec.sub_zero a
  have zero : new.peek a = 0 := Memory.read_zero a
  rw [peek_writeAll new 0 a fits, distance, zero]

end Machine

end LC3
