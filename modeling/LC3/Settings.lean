import LC3.Instruction.Listing
import LC3.Source.Token
import LC3.Text

/-!
# Settings

Two environment variables set the style of literals and the limit of a run. A value that cannot be
read counts as unset. The settings are read once: reading them twice is refused, and so is asking
for one before.
-/

namespace LC3

/-- Reads a number of 64 bits: decimal digits with an optional plus sign. -/
def parseLimit? (text : List Char) : Option Nat :=
  let digits := if text.head? = some '+' then text.tail else text
  if digits.isEmpty then none
  else
    match NumberToken.value? 10 NumberToken.decimalValue? digits with
    | some n => if n < UInt64.size then some n else none
    | none => none

structure Settings where
  literals : LiteralMode
  stepLimit : Option Nat
deriving DecidableEq

namespace Settings

def literalsVariable : String := "LC3VM_LITERALS"

def stepLimitVariable : String := "LC3VM_STEP_LIMIT"

def read (variableValue : String → Option String) : Settings where
  literals :=
    ((variableValue literalsVariable).bind fun value =>
      LiteralMode.ofText? (String.ofList (Blank.trim value.toList))).getD .hex
  stepLimit :=
    (variableValue stepLimitVariable).bind fun value => parseLimit? (Blank.trim value.toList)

inductive Misuse
  | alreadyRead
  | notRead
deriving DecidableEq

def Misuse.message : Misuse → String
  | .alreadyRead => "tried to initialize environment state multiple times"
  | .notRead => "tried to access environment state before initialization"

/-- The settings in force, if they have been read. -/
abbrev Store := Option Settings

def Store.initialise (store : Store) (variableValue : String → Option String) :
    Except Misuse Store :=
  match store with
  | some _ => .error .alreadyRead
  | none => .ok (some (read variableValue))

def Store.get (store : Store) : Except Misuse Settings :=
  match store with
  | some settings => .ok settings
  | none => .error .notRead

end Settings

end LC3
