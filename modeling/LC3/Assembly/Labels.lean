import LC3.Assembly.Form
import LC3.Source.Parse

/-!
# Label addresses

The first pass walks the lines with an address, records the label of each line at the address
there, and moves on by the size of the line. It stops after a line with `.END`. The label of a line
that sets the origin has the address in effect before that.
-/

namespace LC3

/-!
## Errors of the assembler

A source is refused while it is read, or while its lines are laid out in memory. Each error knows
the line it is about, and has a message of one line.
-/

/-- Why a line that was read cannot be laid out in memory. -/
inductive LayoutErrorKind
  | unknownForm (opcode : String)
  | undefinedLabel (label : String)
  | duplicateLabel (label : String)
  | originNotNumber
  | unencodable (reason : EncodingError)
deriving DecidableEq

structure LayoutError where
  kind : LayoutErrorKind
  line : Nat
  span : Span
deriving DecidableEq

def LayoutErrorKind.message : LayoutErrorKind → String
  | .unknownForm opcode => "unknown opcode signature for `" ++ opcode ++ "`"
  | .undefinedLabel label => "unknown label `" ++ label ++ "`"
  | .duplicateLabel label => "duplicate label `" ++ label ++ "`"
  | .originNotNumber => "number expected for .ORIG"
  | .unencodable reason => reason.message

def LayoutError.message (e : LayoutError) : String :=
  e.kind.message ++ " at line " ++ e.line.repr

def Line.error (line : Line) (kind : LayoutErrorKind) : LayoutError :=
  ⟨kind, line.number, line.span⟩

inductive AssemblyError
  | parse (e : ParseError)
  | layout (e : LayoutError)
deriving DecidableEq

namespace AssemblyError

def message : AssemblyError → String
  | .parse e => e.message
  | .layout e => e.message

def line : AssemblyError → Nat
  | .parse e => e.line
  | .layout e => e.line

def span : AssemblyError → Span
  | .parse e => e.span
  | .layout e => e.span

end AssemblyError

/-! ## The first pass -/

/-- Labels and their addresses, in the order of their lines. -/
abbrev Labels := List (String × Word)

namespace Line

/-- The form of the line, or none for a line without an opcode. -/
def form? (line : Line) : Except LayoutError (Option Form) :=
  match line.opcode with
  | none => .ok none
  | some opcode =>
    match Form.find? opcode line.operands with
    | some form => .ok (some form)
    | none => .error (line.error (.unknownForm opcode))

/-- Records the label of the line, if it has one and the label is new. -/
def declare (line : Line) (labels : Labels) (address : Word) : Except LayoutError Labels :=
  match line.label with
  | none => .ok labels
  | some label =>
    if (labels.lookup label).isSome then .error (line.error (.duplicateLabel label))
    else .ok (labels ++ [(label, address)])

/-- The address after a line of this form. The size of a block and an origin have to be numbers. -/
def nextAddress (line : Line) (form : Form) (address : Word) : Except LayoutError Word :=
  match form.template, line.operands with
  | .origin, [.number origin] => .ok origin
  | .origin, _ => .error (line.error .originNotNumber)
  | .block, [.number count] => .ok (address + count)
  | .block, _ => .error (line.error (.unknownForm form.opcode))
  | .text, [.string text] => .ok (address + BitVec.ofNat 16 (byteLength text.toList) + 1)
  | .finish, _ => .ok address
  | _, _ => .ok (address + 1)

end Line

namespace Labels

/-- Walks lines that begin at the address, adding to the labels found before. -/
def collectFrom (labels : Labels) (address : Word) : List Line → Except LayoutError Labels
  | [] => .ok labels
  | line :: rest =>
    match line.declare labels address with
    | .error e => .error e
    | .ok labels =>
      match line.form? with
      | .error e => .error e
      | .ok none => collectFrom labels address rest
      | .ok (some form) =>
        if form.template.isFinish then .ok labels
        else
          match line.nextAddress form address with
          | .error e => .error e
          | .ok next => collectFrom labels next rest

def collect (lines : List Line) : Except LayoutError Labels := collectFrom [] 0 lines

end Labels

end LC3
