import LC3.Symbol

/-!
# The text of an instruction

Every word has a text. Literals are written in lower-case hexadecimal or in decimal; a hexadecimal
literal shows all bits of the sign-extended field, so `-1` is `xffff`, and a decimal one its sign.
A branch without a sign reads `NOP`, a jump through the link register `RET`, and a trap with a
service routine has the routine's name.
-/

namespace LC3

inductive LiteralMode
  | hex
  | dec
deriving DecidableEq

namespace LiteralMode

/-- Reads `hex` or `dec` in any case. -/
def ofText? (s : String) : Option LiteralMode :=
  let folded := s.toList.map Char.toLower
  if folded = "hex".toList then some .hex
  else if folded = "dec".toList then some .dec
  else none

def refusal (s : String) : String := "Unknown literal mode '" ++ s ++ "'"

def hexText (w : Word) : String := String.ofList ('x' :: Nat.toDigits 16 w.toNat)

def unsigned (mode : LiteralMode) (w : Word) : String :=
  match mode with
  | .hex => hexText w
  | .dec => String.ofList ('#' :: Nat.toDigits 10 w.toNat)

def signed (mode : LiteralMode) (w : Word) : String :=
  match mode with
  | .hex => hexText w
  | .dec =>
    if w.msb then String.ofList ('#' :: '-' :: Nat.toDigits 10 (-w).toNat)
    else String.ofList ('#' :: Nat.toDigits 10 w.toNat)

end LiteralMode

def Instruction.fields (mnemonic : String) (operands : List String) : String :=
  mnemonic ++ " " ++ ", ".intercalate operands

open Instruction in
/-- The assembly text of a word. Bits that the class of the word does not use are not looked at. -/
def disassemble (w : Word) (mode : LiteralMode) : String :=
  let register (start : Nat) : String := (Register.ofField w start).name
  let signed (n : Nat) : String := mode.signed (w.signedField 0 n)
  -- Bit 5 selects the immediate form of ADD and AND.
  let second : String := if w.unsignedField 5 1 = 1 then signed 5 else register 0
  match Opcode.ofWord w with
  | .br =>
    let condition := Condition.ofBits (w.field 9 3)
    if condition.isEmpty then "NOP" else fields condition.mnemonic [signed 9]
  | .add => fields "ADD" [register 9, register 6, second]
  | .and => fields "AND" [register 9, register 6, second]
  | .not => fields "NOT" [register 9, register 6]
  | .ld => fields "LD" [register 9, signed 9]
  | .ldi => fields "LDI" [register 9, signed 9]
  | .ldr => fields "LDR" [register 9, register 6, signed 6]
  | .lea => fields "LEA" [register 9, signed 9]
  | .st => fields "ST" [register 9, signed 9]
  | .sti => fields "STI" [register 9, signed 9]
  | .str => fields "STR" [register 9, register 6, signed 6]
  | .jmp => if Register.ofField w 6 = .r7 then "RET" else fields "JMP" [register 6]
  | .jsr => if w.unsignedField 11 1 = 1 then fields "JSR" [signed 11] else fields "JSRR" [register 6]
  | .trap =>
    let vector := w.unsignedField 0 8
    match TrapRoutine.ofWord? vector with
    | some t => t.mnemonic
    | none => fields "TRAP" [mode.unsigned vector]
  | .rti => "RTI"
  | .reserved => "RES"

end LC3
