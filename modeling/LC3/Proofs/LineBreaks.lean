import LC3.Proofs.Emission
import LC3.Proofs.Unplaced

/-!
# Where lines break does not matter

A program says labels and operations in an order. The label in front of an operation may stand on
the same line or on a line before it, and lines that say nothing may stand anywhere. Both passes
come to the same on every such layout: the label of a line is recorded before its operation is
looked at, so it has the same address and is refused for the same reason.
-/

namespace LC3

/-- One thing that a program says. -/
inductive Piece
  | label (name : String)
  | operation (opcode : String) (operands : List Operand)
deriving DecidableEq

namespace Line

def placeless (line : Line) : Line where
  label := line.label
  opcode := line.opcode
  operands := line.operands
  number := 0
  span := ⟨0, 0⟩

/-- What the line says: its label, then its operation. -/
def pieces (line : Line) : List Piece :=
  (line.label.map Piece.label).toList ++
    (line.opcode.map fun opcode => Piece.operation opcode line.operands).toList

/-- The second line has the label of the first alone, and the third line the rest. -/
structure Splits (line labelled rest : Line) : Prop where
  label : labelled.label = line.label
  bare : labelled.opcode = none
  unlabelled : rest.label = none
  opcode : rest.opcode = line.opcode
  operands : rest.operands = line.operands

end Line

def Piece.line : Piece → Line
  | .label name => { label := some name, number := 0, span := ⟨0, 0⟩ }
  | .operation opcode operands => { opcode := some opcode, operands, number := 0, span := ⟨0, 0⟩ }

def pieceLines (lines : List Line) : List Line := (lines.flatMap Line.pieces).map Piece.line

def LayoutError.placeless (e : LayoutError) : LayoutError := ⟨e.kind, 0, ⟨0, 0⟩⟩

/-- In the machine both programs have the same labels or errors of the same kind, with the same
names, and both leave the same machine. -/
def AssembledAlike (m : Machine) (lines lines' : List Line) : Prop :=
  (m.assemble lines).1.mapError LayoutError.kind =
      (m.assemble lines').1.mapError LayoutError.kind ∧
    (m.assemble lines).2 = (m.assemble lines').2

namespace Line

variable (line : Line)

theorem keeps_placeless : Keeps placeless LayoutError.placeless :=
  ⟨fun _ => rfl, fun _ => rfl, fun _ => rfl, fun _ _ => rfl⟩

theorem pieces_of_silent (unlabelled : line.label = none) (bare : line.opcode = none) :
    line.pieces = [] := by
  simp [pieces, unlabelled, bare]

theorem Splits.pieces_append {labelled rest : Line} (splits : line.Splits labelled rest) :
    labelled.pieces ++ rest.pieces = line.pieces := by
  simp [pieces, splits.label, splits.bare, splits.unlabelled, splits.opcode, splits.operands]

section

variable {name opcode : String}

/-- The label of a line is recorded, or refused, on a line of its own. -/
theorem declare_labelLine (labelled : line.label = some name) (known : Labels) (a : Word) :
    (Piece.label name).line.declare known a = line.placeless.declare known a := by
  simp only [declare, placeless, labelled, Piece.line, Line.error]

theorem form?_operationLine (coded : line.opcode = some opcode) :
    (Piece.operation opcode line.operands).line.form? = line.placeless.form? := by
  simp only [form?, placeless, coded, Piece.line, Line.error]

theorem translate?_operationLine (coded : line.opcode = some opcode) (labels : Labels) (a : Word) :
    (Piece.operation opcode line.operands).line.translate? labels a =
      line.placeless.translate? labels a := by
  simp only [translate?, form?, placeless, coded, Piece.line, Line.error]
  rfl

end

/-- The first pass comes to the same on the pieces of a line. -/
theorem collectFrom_pieces (known : Labels) (a : Word) (rest : List Line) :
    Labels.collectFrom known a (line.pieces.map Piece.line ++ rest) =
      Labels.collectFrom known a (line.placeless :: rest) := by
  cases labelled : line.label with
  | none =>
    cases coded : line.opcode with
    | none => simp [Labels.collectFrom, declare, form?, pieces, placeless, labelled, coded]
    | some opcode => simp [pieces, placeless, Piece.line, labelled, coded]
  | some name =>
    have label := line.declare_labelLine labelled known a
    have bare : (Piece.label name).line.form? = .ok none := rfl
    cases declared : line.placeless.declare known a with
    | error e =>
      simp [Labels.collectFrom, pieces, labelled, label, declared]
    | ok known' =>
      cases coded : line.opcode with
      | none =>
        have silent : line.placeless.form? = .ok none := by simp only [form?, placeless, coded]
        simp [Labels.collectFrom, pieces, labelled, coded, label, declared, bare, silent]
      | some opcode =>
        have unlabelled : (Piece.operation opcode line.operands).line.declare known' a =
            .ok known' := rfl
        have sized : ∀ form, (Piece.operation opcode line.operands).line.nextAddress form a =
            line.placeless.nextAddress form a := fun _ => rfl
        simp [Labels.collectFrom, pieces, labelled, coded, label, declared, bare, unlabelled,
          sized, line.form?_operationLine coded]

/-- The second pass comes to the same on the pieces of a line. -/
theorem emit_pieces (labels : Labels) (m : Machine) (a : Word) (rest : List Line) :
    m.emit labels a (line.pieces.map Piece.line ++ rest) =
      m.emit labels a (line.placeless :: rest) := by
  have unheard : ∀ name, (Piece.label name).line.translate? labels a = .ok none := fun _ => rfl
  cases coded : line.opcode with
  | none =>
    have silent : line.placeless.translate? labels a = .ok none := by
      simp only [translate?, form?, placeless, coded]
    cases labelled : line.label <;>
      simp [Machine.emit, pieces, labelled, coded, unheard, silent]
  | some opcode =>
    cases labelled : line.label <;>
      simp [Machine.emit, pieces, labelled, coded, unheard, line.translate?_operationLine coded]

end Line

theorem pieceLines_cons (line : Line) (lines : List Line) :
    pieceLines (line :: lines) = line.pieces.map Piece.line ++ pieceLines lines := by
  simp [pieceLines]

theorem Labels.collectFrom_pieceLines (known : Labels) (a : Word) (lines : List Line) :
    collectFrom known a (pieceLines lines) = collectFrom known a (lines.map Line.placeless) := by
  induction lines generalizing known a with
  | nil => rfl
  | cons line lines ih =>
    rw [pieceLines_cons, Line.collectFrom_pieces]
    simp only [List.map_cons, collectFrom, ih]

namespace Machine

variable (m : Machine)

theorem emit_pieceLines (labels : Labels) (a : Word) (lines : List Line) :
    m.emit labels a (pieceLines lines) = m.emit labels a (lines.map Line.placeless) := by
  induction lines generalizing m a with
  | nil => rfl
  | cons line lines ih =>
    rw [pieceLines_cons, Line.emit_pieces]
    simp only [List.map_cons, emit, ih]

/-- A program is assembled as the lines of its pieces are, but for the places of errors. -/
theorem assemble_pieceLines (lines : List Line) :
    m.assemble (pieceLines lines) =
      (m.assemble lines).map (·.mapError LayoutError.placeless) id := by
  rw [← Line.keeps_placeless.assemble]
  simp only [assemble, Labels.collect, Labels.collectFrom_pieceLines, emit_pieceLines]

theorem mapError_kind_placeless {α : Type} (result : Except LayoutError α) :
    (result.mapError LayoutError.placeless).mapError LayoutError.kind =
      result.mapError LayoutError.kind := by
  cases result <;> rfl

/-- Programs that say the same are assembled alike. -/
theorem assembledAlike_of_pieces {lines lines' : List Line}
    (same : lines.flatMap Line.pieces = lines'.flatMap Line.pieces) :
    AssembledAlike m lines lines' := by
  have images : (m.assemble lines).map (·.mapError LayoutError.placeless) id =
      (m.assemble lines').map (·.mapError LayoutError.placeless) id := by
    rw [← assemble_pieceLines, ← assemble_pieceLines, pieceLines, pieceLines, same]
  obtain ⟨results, machines⟩ := Prod.ext_iff.mp images
  refine ⟨?_, machines⟩
  rw [← mapError_kind_placeless (m.assemble lines).1,
    ← mapError_kind_placeless (m.assemble lines').1]
  exact congrArg _ results

/-- Where the lines of a program break does not matter. A line without label and opcode may be
inserted anywhere, and the label of any line may be put on a line of its own before it. -/
theorem assemble_any_line_breaks (before after : List Line) :
    (∀ silent : Line, silent.label = none → silent.opcode = none →
      AssembledAlike m (before ++ silent :: after) (before ++ after)) ∧
    ∀ line labelled rest : Line, line.Splits labelled rest →
      AssembledAlike m (before ++ labelled :: rest :: after) (before ++ line :: after) := by
  constructor
  · intro silent unlabelled bare
    apply assembledAlike_of_pieces
    simp [silent.pieces_of_silent unlabelled bare]
  · intro line labelled rest splits
    apply assembledAlike_of_pieces
    simp [← splits.pieces_append]

/-- A word behind the line of an origin with a label. -/
def frontLines : List Line :=
  [{ label := some "TOP", opcode := some ".ORIG", operands := [.number 0x3000], number := 1,
     span := ⟨0, 15⟩ },
    { label := some "HERE", opcode := some ".FILL", operands := [.label "STOP"], number := 2,
      span := ⟨16, 15⟩ }]

def stopLine : Line :=
  { label := some "STOP", opcode := some ".END", number := 3, span := ⟨32, 9⟩ }

def stopLabel : Line := { label := some "STOP", number := 3, span := ⟨32, 4⟩ }

def endLine : Line := { opcode := some ".END", number := 4, span := ⟨37, 4⟩ }

def commentLine : Line := { comment := some " done", number := 5, span := ⟨42, 6⟩ }

/-- The label of the last line on a line of its own, a comment behind the end of a program, and a
label that is declared twice. -/
theorem labelled_end_breaks :
    stopLine.Splits stopLabel endLine ∧ commentLine.label = none ∧ commentLine.opcode = none ∧
    (new.assemble (frontLines ++ [stopLabel, endLine])).1.mapError LayoutError.kind =
      .ok [("TOP", 0), ("HERE", 0x3000), ("STOP", 0x3001)] ∧
    (new.assemble (stopLine :: frontLines ++ [commentLine, stopLabel])).1.mapError
      LayoutError.kind = .ok [("STOP", 0)] ∧
    (new.assemble (frontLines ++ frontLines.tail ++ [stopLabel, endLine])).1.mapError
      LayoutError.kind = .error (.duplicateLabel "HERE") := by
  have splits : stopLine.Splits stopLabel endLine := ⟨rfl, rfl, rfl, rfl, rfl⟩
  have broken := (new.assemble_any_line_breaks frontLines []).2 _ _ _ splits
  have refused := (new.assemble_any_line_breaks (frontLines ++ frontLines.tail) []).2 _ _ _ splits
  have inserted :=
    (new.assemble_any_line_breaks (stopLine :: frontLines) [stopLabel]).1 commentLine rfl rfl
  exact ⟨splits, rfl, rfl, broken.1.trans rfl, inserted.1.trans rfl, refused.1.trans rfl⟩

end Machine

end LC3
