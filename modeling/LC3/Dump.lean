import LC3.Assembly.Labels
import LC3.Instruction.Listing
import LC3.Machine

/-!
# Dumps

Plain views of the registers, the labels and the memory of a machine. The memory dump has eight
words in a row, as bytes, as characters and as instructions. The first row is always shown, and a
run of later rows that are all zero is one line with an asterisk.
-/

namespace LC3

def Word.hexBytes (w : Word) : List Char :=
  Hex.fixedUpper 2 w.highByte.toNat ++ ' ' :: Hex.fixedUpper 2 w.lowByte.toNat

def Word.bytesText (w : Word) : String :=
  String.ofList w.hexBytes ++ "(" ++ w.toNat.repr ++ ")"

namespace Dump

def registerText (m : Machine) (r : Register) : String :=
  " r" ++ String.singleton r.digit ++ "=" ++ (m.register r).bytesText

/-- The counter, the program counter, the flag and the registers, and the next instruction. -/
def registers (m : Machine) (mode : LiteralMode) : String :=
  let next := m.peek m.pc
  "Executed:  " ++ m.executed.repr ++ "\n" ++
    "Registers: PC " ++ m.pc.bytesText ++ " Flags [" ++ Sign.flagText m.flag ++ "]" ++
    String.join (Register.all.map (registerText m)) ++ "\n" ++
    "Instruction: " ++ disassemble next mode ++ "; " ++ next.bytesText ++ "\n"

def padRight (width : Nat) (s : String) : String :=
  s ++ String.ofList (List.replicate (width - s.length) ' ')

def padLeft (width : Nat) (s : String) : String :=
  String.ofList (List.replicate (width - s.length) ' ') ++ s

def labelText (label : String × Word) : String :=
  "  " ++ padRight 16 label.1 ++ " x" ++ String.ofList (Hex.fixedUpper 4 label.2.toNat) ++ "\n"

def labels (l : Labels) : String := "Labels:\n" ++ String.join (l.map labelText)

/-- One line of a memory dump: a row of words from an address on, or the mark of a run of rows
that are not shown. -/
inductive Entry
  | row (address : Nat) (words : List Word)
  | gap
deriving DecidableEq

def wordsPerRow : Nat := 8

def rowWords (m : Memory) (row : Nat) : List Word :=
  m.readMany (BitVec.ofNat 16 (row * wordsPerRow)) wordsPerRow

def isBlankRow (words : List Word) : Bool := words.all (· == 0)

/-- The entries of `n` rows from a row on; `afterGap` tells whether the line before is a gap. -/
def entriesFrom (m : Memory) (row : Nat) (afterGap : Bool) : Nat → List Entry
  | 0 => []
  | n + 1 =>
    let words := rowWords m row
    if 0 < row && isBlankRow words then
      if afterGap then entriesFrom m (row + 1) true n
      else .gap :: entriesFrom m (row + 1) true n
    else .row (row * wordsPerRow) words :: entriesFrom m (row + 1) false n

def rowCount : Nat := 65536 / wordsPerRow

def entries (m : Memory) : List Entry := entriesFrom m 0 false rowCount

/-- A byte as a character: itself if it is visible ASCII or a space, else a dot. -/
def byteChar (b : UInt8) : Char :=
  if 0x20 ≤ b.toNat ∧ b.toNat < 0x7F then Char.ofNat b.toNat else '.'

def Entry.text (mode : LiteralMode) : Entry → String
  | .row address words =>
    "0x" ++ String.ofList (Hex.fixedUpper 4 address) ++ "  " ++
      String.ofList (words.flatMap fun w => w.hexBytes ++ [' ', ' ']) ++
      String.ofList (words.flatMap fun w => [byteChar w.highByte, byteChar w.lowByte]) ++ " " ++
      "; ".intercalate (words.map fun w => disassemble w mode) ++ "\n"
  | .gap => "   *\n"

def memory (m : Machine) (mode : LiteralMode) : String :=
  String.join ((entries m.memory).map (Entry.text mode))

end Dump

end LC3
