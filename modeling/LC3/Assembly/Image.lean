import LC3.Assembly.Labels
import LC3.Machine

/-!
# The memory image

The second pass writes the contents of each line into a machine, line after line, and moves the
program counter of a stopped machine to each origin. What was written before an error stays.
-/

namespace LC3

/-!
## The contents of a line

With all labels known, a line stands for words in memory at its address, or moves the origin, or
ends the program.
-/

/-- An operand whose label, if it was one, is resolved. -/
inductive Argument
  | register (r : Register)
  | value (w : Word)
  | text (s : String)
deriving DecidableEq

inductive Contents
  | words (ws : List Word)
  | origin (address : Word)
  | finish
deriving DecidableEq

def Slot.labelValue (slot : Slot) (address label : Word) : Word :=
  match slot with
  | .offset => label - (address + 1)
  | _ => label

def Slot.resolve (slot : Slot) (labels : Labels) (address : Word) :
    Operand → Except LayoutErrorKind Argument
  | .register r => .ok (.register r)
  | .number w => .ok (.value w)
  | .string s => .ok (.text s)
  | .label name =>
    match labels.lookup name with
    | some a => .ok (.value (slot.labelValue address a))
    | none => .error (.undefinedLabel name)

def Slot.resolveAll (labels : Labels) (address : Word) :
    List Slot → List Operand → Except LayoutErrorKind (List Argument)
  | slot :: slots, x :: xs =>
    match slot.resolve labels address x with
    | .error e => .error e
    | .ok a =>
      match resolveAll labels address slots xs with
      | .error e => .error e
      | .ok as => .ok (a :: as)
  | _, _ => .ok []

def Contents.instruction (i : Instruction) : Contents := .words [i.encode]

/-- What a template makes of its arguments under this mnemonic. -/
def Template.contents (mnemonic : String) :
    Template → List Argument → Except LayoutErrorKind Contents
  | .threeRegisters make, [.register a, .register b, .register c] =>
    .ok (.instruction (make a b c))
  | .twoRegistersValue make, [.register a, .register b, .value v] =>
    .ok (.instruction (make a b v))
  | .twoRegisters make, [.register a, .register b] => .ok (.instruction (make a b))
  | .registerValue make, [.register a, .value v] => .ok (.instruction (make a v))
  | .oneRegister make, [.register a] => .ok (.instruction (make a))
  | .oneValue make, [.value v] => .ok (.instruction (make v))
  | .fixed i, [] => .ok (.instruction i)
  | .branch, [.value v] =>
    match Condition.ofMnemonic? mnemonic with
    | none => .error (.unknownForm Form.branchKey)
    | some condition =>
      match Instruction.branch condition v with
      | .ok i => .ok (.instruction i)
      | .error e => .error (.unencodable e)
  | .fill, [.value v] => .ok (.words [v])
  | .origin, [.value v] => .ok (.origin v)
  | .block, [.value n] => .ok (.words (List.replicate n.toNat 0))
  | .text, [.text s] => .ok (.words (textWords s ++ [0]))
  | .finish, [] => .ok .finish
  | _, _ => .error (.unknownForm mnemonic)

/-- What the second pass makes of a line at the address: its contents and the address after it, or
none for a line without an opcode. -/
def Line.translate? (line : Line) (labels : Labels) (address : Word) :
    Except LayoutError (Option (Contents × Word)) :=
  match line.form? with
  | .error e => .error e
  | .ok none => .ok none
  | .ok (some form) =>
    match Slot.resolveAll labels address form.slots line.operands with
    | .error kind => .error (line.error kind)
    | .ok arguments =>
      match line.nextAddress form address with
      | .error e => .error e
      | .ok next =>
        match form.template.contents (line.opcode.getD "") arguments with
        | .error kind => .error (line.error kind)
        | .ok contents => .ok (some (contents, next))

/-! ## The second pass -/

namespace Machine

/-- Moves the program counter to an origin, unless the machine is running. -/
def moveOrigin (m : Machine) (origin : Word) : Machine :=
  match m.setOrigin origin with
  | .ok m => m
  | .error _ => m

/-- Writes lines that begin at the address. -/
def emit (labels : Labels) (m : Machine) (address : Word) :
    List Line → Except LayoutError Unit × Machine
  | [] => (.ok (), m)
  | line :: rest =>
    match line.translate? labels address with
    | .error e => (.error e, m)
    | .ok none => emit labels m address rest
    | .ok (some (.words ws, next)) => emit labels (m.writeAll address ws) next rest
    | .ok (some (.origin _, next)) => emit labels (m.moveOrigin next) next rest
    | .ok (some (.finish, _)) => (.ok (), m)

/-- Assembles lines into the machine; the labels, or an error, and the machine it leaves. -/
def assemble (m : Machine) (lines : List Line) : Except LayoutError Labels × Machine :=
  match Labels.collect lines with
  | .error e => (.error e, m)
  | .ok labels =>
    match m.emit labels 0 lines with
    | (.ok (), m) => (.ok labels, m)
    | (.error e, m) => (.error e, m)

end Machine

def assemble (source : String) : Except AssemblyError (Machine × Labels) :=
  match Source.parse source with
  | .error e => .error (.parse e)
  | .ok lines =>
    match Machine.new.assemble lines with
    | (.ok labels, m) => .ok (m, labels)
    | (.error e, _) => .error (.layout e)

end LC3
