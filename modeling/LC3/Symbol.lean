import LC3.Word

/-!
# Registers, instruction classes, conditions and service routines

The small vocabularies of the machine: each has a code, and each but the classes a name.
-/

namespace LC3

/-!
## General registers

Eight registers, named `R0` to `R7`. The name is read in either case and with nothing around it.
-/

structure Register where
  index : BitVec 3
deriving DecidableEq

namespace Register

def r0 : Register := ⟨0⟩

def r7 : Register := ⟨7⟩

def all : List Register := (List.range 8).map fun i => ⟨BitVec.ofNat 3 i⟩

/-- The register selected by the low three bits. -/
def ofWord (w : Word) : Register := ⟨w.field 0 3⟩

/-- The register that three bits of an instruction name, from bit `start` up. -/
def ofField (w : Word) (start : Nat) : Register := ofWord (w.unsignedField start 3)

def digit (r : Register) : Char := Nat.digitChar r.index.toNat

def name (r : Register) : String := String.ofList ['R', r.digit]

/-- Reads exactly `R` or `r` and one digit below eight. -/
def ofName? : List Char → Option Register
  | [letter, d] =>
    if (letter = 'R' ∨ letter = 'r') ∧ '0' ≤ d ∧ d ≤ '7' then
      some ⟨BitVec.ofNat 3 (d.toNat - '0'.toNat)⟩
    else none
  | _ => none

end Register

/-!
## Instruction classes

The top four bits of an instruction select its class.
-/

/-- The sixteen instruction classes, in the order of their codes. -/
inductive Opcode
  | br | add | ld | st | jsr | and | ldr | str
  | rti | not | ldi | sti | jmp | reserved | lea | trap
deriving DecidableEq

namespace Opcode

def code : Opcode → BitVec 4
  | .br => 0x0
  | .add => 0x1
  | .ld => 0x2
  | .st => 0x3
  | .jsr => 0x4
  | .and => 0x5
  | .ldr => 0x6
  | .str => 0x7
  | .rti => 0x8
  | .not => 0x9
  | .ldi => 0xA
  | .sti => 0xB
  | .jmp => 0xC
  | .reserved => 0xD
  | .lea => 0xE
  | .trap => 0xF

def ofCode (c : BitVec 4) : Opcode :=
  match c.toNat with
  | 0x0 => .br
  | 0x1 => .add
  | 0x2 => .ld
  | 0x3 => .st
  | 0x4 => .jsr
  | 0x5 => .and
  | 0x6 => .ldr
  | 0x7 => .str
  | 0x8 => .rti
  | 0x9 => .not
  | 0xA => .ldi
  | 0xB => .sti
  | 0xC => .jmp
  | 0xD => .reserved
  | 0xE => .lea
  | _ => .trap

def ofWord (w : Word) : Opcode := ofCode (w.field 12 4)

/-- The code in its place, all other bits clear. -/
def toWord (o : Opcode) : Word := o.code ++ 0#12

theorem ofCode_code (o : Opcode) : ofCode o.code = o := by
  cases o <;> rfl

end Opcode

/-!
## Condition codes

An instruction that writes a result leaves the result's sign behind. A branch names the signs on
which it is taken. Before the first result there is no sign, and no branch is taken.
-/

inductive Sign
  | negative
  | zero
  | positive
deriving DecidableEq

namespace Sign

def ofWord (w : Word) : Sign :=
  if w = 0 then .zero else if w.msb then .negative else .positive

def bits : Sign → BitVec 3
  | .negative => 0b100
  | .zero => 0b010
  | .positive => 0b001

/-- The flag column of a register dump. -/
def flagText : Option Sign → String
  | some .negative => "N__"
  | some .zero => "_Z_"
  | some .positive => "__P"
  | none => "___"

end Sign

/-- The set of signs on which a branch is taken. -/
structure Condition where
  negative : Bool
  zero : Bool
  positive : Bool
deriving DecidableEq

namespace Condition

def always : Condition := ⟨true, true, true⟩

def bits (c : Condition) : BitVec 3 :=
  BitVec.ofBool c.negative ++ BitVec.ofBool c.zero ++ BitVec.ofBool c.positive

def ofBits (b : BitVec 3) : Condition := ⟨b.getLsbD 2, b.getLsbD 1, b.getLsbD 0⟩

theorem ofBits_bits (c : Condition) : ofBits c.bits = c := by
  obtain ⟨n, z, p⟩ := c
  cases n <;> cases z <;> cases p <;> rfl

def isEmpty (c : Condition) : Bool := !(c.negative || c.zero || c.positive)

/-- Whether the sign is in the set; without a sign nothing is. -/
def accepts (c : Condition) : Option Sign → Bool
  | some .negative => c.negative
  | some .zero => c.zero
  | some .positive => c.positive
  | none => false

/-- The branch mnemonic: `BR` and the letters of the set in the order `N`, `Z`, `P`. -/
def mnemonic (c : Condition) : String :=
  "BR" ++ (if c.negative then "N" else "") ++ (if c.zero then "Z" else "") ++
    (if c.positive then "P" else "")

/-- Removes the letter from the front, if it is there. -/
def strip (letter : Char) : List Char → Bool × List Char
  | [] => (false, [])
  | c :: rest => if c = letter then (true, rest) else (false, c :: rest)

/-- Reads a branch mnemonic. The letters come in the order `N`, `Z`, `P`, each at most once, and
plain `BR` stands for all of them. -/
def ofMnemonic? (s : String) : Option Condition :=
  match s.toList with
  | ['B', 'R'] => some always
  | 'B' :: 'R' :: suffix =>
    let (negative, suffix) := strip 'N' suffix
    let (zero, suffix) := strip 'Z' suffix
    let (positive, suffix) := strip 'P' suffix
    if suffix.isEmpty then some ⟨negative, zero, positive⟩ else none
  | _ => none

end Condition

/-!
## Service routines

Six trap vectors have a routine that the machine itself performs. All other vectors go through the
vector table at the bottom of memory.
-/

/-- A service routine: read a character, write one, write a string, read a character and echo
it, write a packed string, stop. -/
inductive TrapRoutine
  | getc
  | out
  | puts
  | echo
  | putsp
  | halt
deriving DecidableEq

namespace TrapRoutine

def mnemonic : TrapRoutine → String
  | .getc => "GETC"
  | .out => "OUT"
  | .puts => "PUTS"
  | .echo => "IN"
  | .putsp => "PUTSP"
  | .halt => "HALT"

def vector : TrapRoutine → BitVec 8
  | .getc => 0x20
  | .out => 0x21
  | .puts => 0x22
  | .echo => 0x23
  | .putsp => 0x24
  | .halt => 0x25

def ofVector? (v : BitVec 8) : Option TrapRoutine :=
  match v.toNat with
  | 0x20 => some .getc
  | 0x21 => some .out
  | 0x22 => some .puts
  | 0x23 => some .echo
  | 0x24 => some .putsp
  | 0x25 => some .halt
  | _ => none

/-- The routine of a vector given as a word; a word above one byte has none. -/
def ofWord? (w : Word) : Option TrapRoutine :=
  if w.toNat < 256 then ofVector? (w.setWidth 8) else none

theorem ofVector?_vector (t : TrapRoutine) : ofVector? t.vector = some t := by
  cases t <;> rfl

end TrapRoutine

end LC3
