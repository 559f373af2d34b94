import LC3.Symbol

/-!
# Instructions and their encodings

An instruction is a value with typed operands, and `encode` lays the operands out in sixteen bits.
The assembler and its users hold operands as words. The builders narrow them to the fields of an
instruction, so an operand that is too wide is cut and never refused. The one refusal is a branch
that no sign would take, because its encoding is reserved.
-/

namespace LC3

/-- The second operand of an addition or conjunction. -/
inductive Source
  | register (r : Register)
  | immediate (value : BitVec 5)
deriving DecidableEq

/-- An instruction with its operands; offsets are signed and relative to the incremented program
counter, or to the base register where there is one. -/
inductive Instruction
  | br (condition : Condition) (offset : BitVec 9)
  | add (dest src : Register) (second : Source)
  | and (dest src : Register) (second : Source)
  | not (dest src : Register)
  | ld (dest : Register) (offset : BitVec 9)
  | ldi (dest : Register) (offset : BitVec 9)
  | ldr (dest base : Register) (offset : BitVec 6)
  | lea (dest : Register) (offset : BitVec 9)
  | st (src : Register) (offset : BitVec 9)
  | sti (src : Register) (offset : BitVec 9)
  | str (src base : Register) (offset : BitVec 6)
  | jmp (base : Register)
  | jsr (offset : BitVec 11)
  | jsrr (base : Register)
  | trap (vector : BitVec 8)
  | rti
  | reserved
deriving DecidableEq

inductive EncodingError
  | noConditionFlags
deriving DecidableEq

def EncodingError.message : EncodingError → String
  | .noConditionFlags => "impossible branch flags: 000"

namespace Source

/-- The low six bits of an addition or conjunction. -/
def encode : Source → BitVec 6
  | .register r => 0#3 ++ r.index
  | .immediate v => 1#1 ++ v

end Source

namespace Instruction

def opcode : Instruction → Opcode
  | .br .. => .br
  | .add .. => .add
  | .and .. => .and
  | .not .. => .not
  | .ld .. => .ld
  | .ldi .. => .ldi
  | .ldr .. => .ldr
  | .lea .. => .lea
  | .st .. => .st
  | .sti .. => .sti
  | .str .. => .str
  | .jmp .. => .jmp
  | .jsr .. => .jsr
  | .jsrr .. => .jsr
  | .trap .. => .trap
  | .rti => .rti
  | .reserved => .reserved

/-- The twelve bits below the opcode. -/
def operandBits : Instruction → BitVec 12
  | .br c o => c.bits ++ o
  | .add d s x => d.index ++ s.index ++ x.encode
  | .and d s x => d.index ++ s.index ++ x.encode
  | .not d s => d.index ++ s.index ++ 0b111111#6
  | .ld d o => d.index ++ o
  | .ldi d o => d.index ++ o
  | .ldr d b o => d.index ++ b.index ++ o
  | .lea d o => d.index ++ o
  | .st s o => s.index ++ o
  | .sti s o => s.index ++ o
  | .str s b o => s.index ++ b.index ++ o
  | .jmp b => 0#3 ++ b.index ++ 0#6
  | .jsr o => 1#1 ++ o
  | .jsrr b => 0#3 ++ b.index ++ 0#6
  | .trap v => 0#4 ++ v
  | .rti => 0
  | .reserved => 0

def encode (i : Instruction) : Word := i.opcode.toWord ||| i.operandBits.setWidth 16

def branch (condition : Condition) (offset : Word) : Except EncodingError Instruction :=
  if condition.isEmpty then .error .noConditionFlags
  else .ok (.br condition (offset.narrow 9))

def addRegister (dest src1 src2 : Register) : Instruction := .add dest src1 (.register src2)

def addImmediate (dest src : Register) (value : Word) : Instruction :=
  .add dest src (.immediate (value.narrow 5))

def andRegister (dest src1 src2 : Register) : Instruction := .and dest src1 (.register src2)

def andImmediate (dest src : Register) (value : Word) : Instruction :=
  .and dest src (.immediate (value.narrow 5))

def load (dest : Register) (offset : Word) : Instruction := .ld dest (offset.narrow 9)

def loadIndirect (dest : Register) (offset : Word) : Instruction := .ldi dest (offset.narrow 9)

def loadBase (dest base : Register) (offset : Word) : Instruction :=
  .ldr dest base (offset.narrow 6)

def loadAddress (dest : Register) (offset : Word) : Instruction := .lea dest (offset.narrow 9)

def store (src : Register) (offset : Word) : Instruction := .st src (offset.narrow 9)

def storeIndirect (src : Register) (offset : Word) : Instruction := .sti src (offset.narrow 9)

def storeBase (src base : Register) (offset : Word) : Instruction :=
  .str src base (offset.narrow 6)

def call (offset : Word) : Instruction := .jsr (offset.narrow 11)

def ret : Instruction := .jmp .r7

/-- A trap's vector is narrowed like a signed value. -/
def trapTo (vector : Word) : Instruction := .trap (vector.narrow 8)

def routine (t : TrapRoutine) : Instruction := .trap t.vector

end Instruction

end LC3
