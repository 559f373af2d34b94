import LC3.Assembly.Image

/-!
# What the passes look at

The passes look at the label, the opcode and the operands of a line. The rest of it is seen in their
errors alone. So a change to the rest leaves the image and the labels as they are. Lines that say the
same under the same numbers at other places are assembled alike, or have the same error at the same
line.
-/

namespace LC3

/-- The change of lines keeps what the passes look at, and what becomes of the errors. -/
structure Line.Keeps (f : Line → Line) (g : LayoutError → LayoutError) : Prop where
  label : ∀ line, (f line).label = line.label
  opcode : ∀ line, (f line).opcode = line.opcode
  operands : ∀ line, (f line).operands = line.operands
  error : ∀ line kind, (f line).error kind = g (line.error kind)

theorem mapError_ok {α ε ε' : Type} (f : ε → ε') (a : α) :
    (Except.ok a).mapError f = .ok a := rfl

variable {f : Line → Line} {g : LayoutError → LayoutError}

namespace Line

theorem Keeps.form? (keeps : Keeps f g) (line : Line) :
    (f line).form? = line.form?.mapError g := by
  rw [Line.form?, Line.form?, keeps.opcode, keeps.operands]
  cases line.opcode with
  | none => rfl
  | some opcode =>
    simp only [keeps.error]
    cases Form.find? opcode line.operands <;> rfl

theorem Keeps.declare (keeps : Keeps f g) (line : Line) (labels : Labels) (a : Word) :
    (f line).declare labels a = (line.declare labels a).mapError g := by
  rw [Line.declare, Line.declare, keeps.label]
  cases line.label with
  | none => rfl
  | some label =>
    simp only [keeps.error]
    split <;> rfl

theorem Keeps.nextAddress (keeps : Keeps f g) (line : Line) (form : Form) (a : Word) :
    (f line).nextAddress form a = (line.nextAddress form a).mapError g := by
  rw [Line.nextAddress, Line.nextAddress, keeps.operands]
  simp only [keeps.error]
  split <;> rfl

theorem Keeps.translate? (keeps : Keeps f g) (line : Line) (labels : Labels) (a : Word) :
    (f line).translate? labels a = (line.translate? labels a).mapError g := by
  rw [Line.translate?, Line.translate?, keeps.form?]
  cases line.form? with
  | error e => rfl
  | ok found? =>
    cases found? with
    | none => rfl
    | some form =>
      simp only [mapError_ok, keeps.opcode, keeps.operands, keeps.error, keeps.nextAddress]
      cases Slot.resolveAll labels a form.slots line.operands with
      | error kind => rfl
      | ok arguments =>
        simp only
        cases line.nextAddress form a with
        | error e => rfl
        | ok next =>
          simp only [mapError_ok]
          cases form.template.contents (line.opcode.getD "") arguments <;> rfl

theorem Keeps.collectFrom (keeps : Keeps f g) (known : Labels) (a : Word) (lines : List Line) :
    Labels.collectFrom known a (lines.map f) = (Labels.collectFrom known a lines).mapError g := by
  induction lines generalizing known a with
  | nil => rfl
  | cons line lines ih =>
    rw [List.map_cons, Labels.collectFrom, Labels.collectFrom, keeps.declare, keeps.form?]
    cases line.declare known a with
    | error e => rfl
    | ok known' =>
      cases line.form? with
      | error e => rfl
      | ok found? =>
        cases found? with
        | none => exact ih known' a
        | some form =>
          simp only [mapError_ok, keeps.nextAddress]
          split
          · rfl
          · cases line.nextAddress form a with
            | error e => rfl
            | ok next => exact ih known' next

theorem Keeps.emit (keeps : Keeps f g) (labels : Labels) (m : Machine) (a : Word)
    (lines : List Line) :
    m.emit labels a (lines.map f) = (m.emit labels a lines).map (·.mapError g) id := by
  induction lines generalizing m a with
  | nil => rfl
  | cons line lines ih =>
    rw [List.map_cons, Machine.emit, Machine.emit, keeps.translate?]
    cases line.translate? labels a with
    | error e => rfl
    | ok translated? =>
      cases translated? with
      | none => exact ih m a
      | some translated =>
        obtain ⟨contents, next⟩ := translated
        cases contents with
        | words ws => exact ih _ _
        | origin o => exact ih _ _
        | finish => rfl

/-- What the passes do not look at changes their errors at most. -/
theorem Keeps.assemble (keeps : Keeps f g) (m : Machine) (lines : List Line) :
    m.assemble (lines.map f) = (m.assemble lines).map (·.mapError g) id := by
  rw [Machine.assemble, Machine.assemble, Labels.collect, Labels.collect, keeps.collectFrom]
  cases Labels.collectFrom [] 0 lines with
  | error e => rfl
  | ok labels =>
    simp only [mapError_ok, keeps.emit]
    rcases m.emit labels 0 lines with ⟨_ | _, _⟩ <;> rfl

def unplaced (line : Line) : Line := { line with span := ⟨0, 0⟩ }

end Line

def LayoutError.unplaced (e : LayoutError) : LayoutError := { e with span := ⟨0, 0⟩ }

theorem Line.keeps_unplaced : Keeps unplaced LayoutError.unplaced :=
  ⟨fun _ => rfl, fun _ => rfl, fun _ => rfl, fun _ _ => rfl⟩

/-- Lines that differ in their places alone are assembled alike. -/
theorem Machine.assemble_congr (m : Machine) {lines lines' : List Line}
    (same : lines'.map Line.unplaced = lines.map Line.unplaced) :
    (m.assemble lines').2 = (m.assemble lines).2 ∧
      (m.assemble lines').1.mapError LayoutError.unplaced =
        (m.assemble lines).1.mapError LayoutError.unplaced := by
  have images := congrArg m.assemble same
  rw [Line.keeps_unplaced.assemble, Line.keeps_unplaced.assemble] at images
  exact (Prod.ext_iff.mp images).symm

end LC3
