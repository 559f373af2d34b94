import LC3.Symbol
import LC3.Text

/-!
# Source lines

A line holds an optional label, an optional opcode with operands, and an optional comment; blank
lines are lines too. Names are kept as text in upper case, so that a line made by hand may hold any.
-/

namespace LC3

/-!
## Places in the source

Offsets and lengths count the bytes of the UTF-8 encoding.
-/

def byteLength (cs : List Char) : Nat := cs.foldr (fun c n => c.utf8Size + n) 0

structure Span where
  offset : Nat
  length : Nat
deriving DecidableEq

namespace Span

def stop (s : Span) : Nat := s.offset + s.length

def isEmpty (s : Span) : Bool := s.length == 0

end Span

@[simp] theorem byteLength_nil : byteLength [] = 0 := rfl

@[simp] theorem byteLength_cons (c : Char) (cs : List Char) :
    byteLength (c :: cs) = c.utf8Size + byteLength cs := rfl

theorem byteLength_append (a b : List Char) :
    byteLength (a ++ b) = byteLength a + byteLength b := by
  induction a with
  | nil => exact (Nat.zero_add _).symm
  | cons c a ih => rw [List.cons_append, byteLength_cons, byteLength_cons, ih, Nat.add_assoc]

/-!
## Keywords

The names that stand for an operation. Any other name in front of a line is a label.
-/

namespace Keyword

def all : List String :=
  ["ADD", "AND", "NOT", "BR", "BRN", "BRZ", "BRP", "BRNZ", "BRNP", "BRZP", "BRNZP", "JMP", "RET",
    "JSR", "JSRR", "LD", "LDI", "LDR", "LEA", "ST", "STI", "STR", "TRAP", "GETC", "OUT", "PUTS",
    "IN", "PUTSP", "HALT", ".ORIG", ".FILL", ".BLKW", ".STRINGZ", ".END"]

/-- The keyword after which nothing is read. -/
def finish : String := ".END"

def isKeyword (name : String) : Bool := all.contains name

end Keyword

/-! ## Statements and lines -/

/-- One operand of a line; escapes of a string are resolved and numbers are words already. -/
inductive Operand
  | register (r : Register)
  | number (value : Word)
  | string (text : String)
  | label (name : String)
deriving DecidableEq

def Operand.text : Operand → String
  | .register r => r.name
  | .number w => String.ofList ('x' :: Hex.upper w.toNat)
  | .string s => Quoted.quote s
  | .label name => name

/-- What a line says. The comment is the text after the semicolon. -/
structure Statement where
  label : Option String := none
  opcode : Option String := none
  operands : List Operand := []
  comment : Option String := none
deriving DecidableEq

namespace Statement

def operationText (opcode : String) (operands : List Operand) : String :=
  let list := ", ".intercalate (operands.map Operand.text)
  if list.isEmpty then opcode else opcode ++ " " ++ list

def text (s : Statement) : String :=
  " ".intercalate <|
    s.label.toList ++
    (s.opcode.map fun opcode => operationText opcode s.operands).toList ++
    (s.comment.map fun comment => ";" ++ comment).toList

end Statement

/-- A statement at its place: the number of its line, counted from one, and the line's text without
the terminator. -/
structure Line extends Statement where
  number : Nat
  span : Span
deriving DecidableEq

end LC3
