import LC3.Instruction
import LC3.Source.Line

/-!
# Forms of lines

A form is an opcode with a kind for each of its operands, and a template that makes memory out of
operands of these kinds. Where a form takes a number it takes a label too. An operation with
several forms is told apart by its operands, so at most one form fits a line.
-/

namespace LC3

/-- What an operand may be. The label in an immediate stands for its address, in an offset for its
distance from the incremented program counter. -/
inductive Slot
  | register
  | immediate
  | offset
  | string
deriving DecidableEq

def Slot.accepts : Slot → Operand → Bool
  | .register, .register _ => true
  | .immediate, .number _ => true
  | .immediate, .label _ => true
  | .offset, .number _ => true
  | .offset, .label _ => true
  | .string, .string _ => true
  | _, _ => false

/-- Whether there are as many operands as slots, each of its slot's kind. -/
def Slot.acceptAll : List Slot → List Operand → Bool
  | [], [] => true
  | slot :: slots, x :: xs => slot.accepts x && acceptAll slots xs
  | _, _ => false

/-- How the operands of a form become memory: an instruction of registers and a word, or the work
of a directive. The condition of a branch comes from its mnemonic. -/
inductive Template
  | threeRegisters (make : Register → Register → Register → Instruction)
  | twoRegistersValue (make : Register → Register → Word → Instruction)
  | twoRegisters (make : Register → Register → Instruction)
  | registerValue (make : Register → Word → Instruction)
  | oneRegister (make : Register → Instruction)
  | oneValue (make : Word → Instruction)
  | fixed (i : Instruction)
  | branch
  | origin
  | fill
  | block
  | text
  | finish

def Template.isFinish : Template → Bool
  | .finish => true
  | _ => false

structure Form where
  opcode : String
  slots : List Slot
  template : Template

namespace Form

/-- The opcode under which the branches with all conditions are found. -/
def branchKey : String := "BR"

def all : List Form :=
  [⟨branchKey, [.offset], .branch⟩,
    ⟨"ADD", [.register, .register, .register], .threeRegisters .addRegister⟩,
    ⟨"ADD", [.register, .register, .immediate], .twoRegistersValue .addImmediate⟩,
    ⟨"LD", [.register, .offset], .registerValue .load⟩,
    ⟨"ST", [.register, .offset], .registerValue .store⟩,
    ⟨"JSR", [.offset], .oneValue .call⟩,
    ⟨"JSR", [.register], .oneRegister .jsrr⟩,
    ⟨"JSRR", [.register], .oneRegister .jsrr⟩,
    ⟨"AND", [.register, .register, .immediate], .twoRegistersValue .andImmediate⟩,
    ⟨"AND", [.register, .register, .register], .threeRegisters .andRegister⟩,
    ⟨"LDR", [.register, .register, .offset], .twoRegistersValue .loadBase⟩,
    ⟨"STR", [.register, .register, .offset], .twoRegistersValue .storeBase⟩,
    ⟨"NOT", [.register, .register], .twoRegisters .not⟩,
    ⟨"LDI", [.register, .offset], .registerValue .loadIndirect⟩,
    ⟨"STI", [.register, .offset], .registerValue .storeIndirect⟩,
    ⟨"JMP", [.register], .oneRegister .jmp⟩,
    ⟨"RET", [], .fixed .ret⟩,
    ⟨"LEA", [.register, .offset], .registerValue .loadAddress⟩,
    ⟨"GETC", [], .fixed (.routine .getc)⟩,
    ⟨"OUT", [], .fixed (.routine .out)⟩,
    ⟨"PUTS", [], .fixed (.routine .puts)⟩,
    ⟨"IN", [], .fixed (.routine .echo)⟩,
    ⟨"PUTSP", [], .fixed (.routine .putsp)⟩,
    ⟨"HALT", [], .fixed (.routine .halt)⟩,
    ⟨"TRAP", [.immediate], .oneValue .trapTo⟩,
    ⟨".FILL", [.immediate], .fill⟩,
    ⟨".BLKW", [.immediate], .block⟩,
    ⟨".ORIG", [.immediate], .origin⟩,
    ⟨".STRINGZ", [.string], .text⟩,
    ⟨".END", [], .finish⟩]

def accepts (f : Form) (key : String) (operands : List Operand) : Bool :=
  f.opcode == key && Slot.acceptAll f.slots operands

/-- The opcode that the forms of a mnemonic have. -/
def key (opcode : String) : String :=
  if (Condition.ofMnemonic? opcode).isSome then branchKey else opcode

def find? (opcode : String) (operands : List Operand) : Option Form :=
  all.find? fun f => f.accepts (key opcode) operands

end Form

end LC3
