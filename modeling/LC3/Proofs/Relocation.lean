import LC3.Proofs.Emission
import LC3.Proofs.FormTable

/-!
# Programs can be moved

A program that keeps one origin and uses labels as distances only means the same at every origin.
Moving the origin adds a distance to every address that the passes compute, round the end of memory
if need be. Sizes, errors and words do not see it, so the labels and the image are those of the
other origin, moved by the distance.
-/

namespace LC3

theorem Word.add_right_comm (a d n : Word) : a + d + n = a + n + d := by bv_omega

def Labels.shift (d : Word) (labels : Labels) : Labels := labels.map (Prod.map id (· + d))

/-- The cells of the second machine are those of the first, moved by the distance. -/
def Machine.Moved (d : Word) (m m' : Machine) : Prop := ∀ x, m'.peek (x + d) = m.peek x

def Line.atOrigin (number : Nat) (span : Span) (a : Word) : Line where
  opcode := some ".ORIG"
  operands := [.number a]
  number := number
  span := span

/-- If the line has a form, a label stands only where the form has a distance. -/
def Line.Relocatable (line : Line) : Prop :=
  ∀ form, line.form? = .ok (some form) →
    ∀ slot name, (slot, Operand.label name) ∈ form.slots.zip line.operands → slot = .offset

namespace Labels

variable (labels : Labels) (a d : Word)

@[simp] theorem lookup_shift (name : String) :
    (labels.shift d).lookup name = (labels.lookup name).map (· + d) := by
  induction labels with
  | nil => rfl
  | cons entry labels ih =>
    obtain ⟨known, t⟩ := entry
    by_cases same : name = known
    · subst same
      simp [shift]
    · have other : (name == known) = false := beq_eq_false_iff_ne.mpr same
      simpa [shift, List.lookup_cons, other] using ih

end Labels

namespace Slot

variable {labels : Labels} {a d : Word}

/-- The distance to a label is the same after a move. -/
theorem resolve_shift {slot : Slot} {x : Operand}
    (distance : ∀ name, x = .label name → slot = .offset) :
    slot.resolve (labels.shift d) (a + d) x = slot.resolve labels a x := by
  cases x with
  | label name =>
    cases distance name rfl
    simp only [resolve, Labels.lookup_shift]
    cases labels.lookup name with
    | none => rfl
    | some t =>
      have same : t + d - (a + d + 1) = t - (a + 1) := by bv_omega
      simp only [Option.map_some, labelValue, same]
  | _ => rfl

theorem resolveAll_shift {slots : List Slot} {xs : List Operand}
    (distances : ∀ slot name, (slot, Operand.label name) ∈ slots.zip xs → slot = .offset) :
    resolveAll (labels.shift d) (a + d) slots xs = resolveAll labels a slots xs := by
  induction slots generalizing xs with
  | nil => rfl
  | cons slot slots ih =>
    cases xs with
    | nil => rfl
    | cons x xs =>
      have first : slot.resolve (labels.shift d) (a + d) x = slot.resolve labels a x := by
        apply resolve_shift
        rintro name rfl
        exact distances slot name List.mem_cons_self
      have others := ih fun slot name later => distances slot name (List.mem_cons_of_mem _ later)
      simp only [resolveAll, first, others]

end Slot

namespace Line

variable {line : Line} {labels known : Labels} {a d : Word}

theorem opcode_of_origin {form : Form} (found : line.form? = .ok (some form))
    (origin : form.template = .origin) : line.opcode = some ".ORIG" := by
  have named : form.template.directive? = some ".ORIG" := by rw [origin]; rfl
  exact ((directive?_eq_some_iff found).mp named).2

/-- Only a line with `.ORIG` moves the origin. -/
theorem opcode_of_contents_origin {o : Word}
    (made : line.contents? labels a = .ok (some (.origin o))) : line.opcode = some ".ORIG" := by
  obtain ⟨form, arguments, found, -, -, makes⟩ := makes_of_contents? made
  have origin : form.template = .origin := by
    generalize form.template = t at makes
    cases makes
    rfl
  exact opcode_of_origin found origin

theorem relocatable_of_form {form : Form} (found : line.form? = .ok (some form))
    (distances : ∀ slot name,
      (slot, Operand.label name) ∈ form.slots.zip line.operands → slot = .offset) :
    line.Relocatable := by
  intro other found'
  cases found.symm.trans found'
  exact distances

theorem declare_shift :
    line.declare (known.shift d) (a + d) = (line.declare known a).map (Labels.shift d) := by
  rw [declare, declare]
  cases line.label with
  | none => rfl
  | some name =>
    simp only [Labels.lookup_shift, Option.isSome_map]
    split
    · rfl
    · simp [Except.map, Labels.shift]

/-- A line has the same size at the other address. -/
theorem nextAddress_shift {form : Form} (unmoved : form.template ≠ .origin) :
    line.nextAddress form (a + d) = (line.nextAddress form a).map (· + d) := by
  rw [nextAddress, nextAddress]
  split
  · next origin _ => exact absurd origin unmoved
  · next origin _ => exact absurd origin unmoved
  · simp only [Except.map, Word.add_right_comm _ d]
  · rfl
  · simp only [Except.map, Word.add_right_comm _ d]
  · rfl
  · simp only [Except.map, Word.add_right_comm _ d]

/-- A line that can be moved has the same contents at the other address. -/
theorem contents?_shift (relocatable : line.Relocatable) (unmoved : line.opcode ≠ some ".ORIG") :
    line.contents? (labels.shift d) (a + d) = line.contents? labels a := by
  cases found : line.form? with
  | error e => simp only [contents?, translate?, found]
  | ok form? =>
    cases form? with
    | none => simp only [contents?, translate?, found]
    | some form =>
      have elsewhere := mt (opcode_of_origin found) unmoved
      simp only [contents?, translate?, found, Slot.resolveAll_shift (relocatable form found),
        nextAddress_shift elsewhere]
      cases Slot.resolveAll labels a form.slots line.operands with
      | error kind => rfl
      | ok arguments =>
        cases line.nextAddress form a with
        | error e => rfl
        | ok next =>
          simp only [Except.map]
          cases form.template.contents (line.opcode.getD "") arguments <;> rfl

end Line

namespace Labels

/-- The first pass gives the same labels, moved, or the same error. -/
theorem collectFrom_shift (known : Labels) (a d : Word) {lines : List Line}
    (unmoved : ∀ line ∈ lines, line.opcode ≠ some ".ORIG") :
    collectFrom (known.shift d) (a + d) lines = (collectFrom known a lines).map (shift d) := by
  induction lines generalizing known a with
  | nil => rfl
  | cons line rest ih =>
    obtain ⟨first, others⟩ := List.forall_mem_cons.mp unmoved
    simp only [collectFrom, Line.declare_shift]
    cases line.declare known a with
    | error e => rfl
    | ok known' =>
      simp only [Except.map]
      cases found : line.form? with
      | error e => rfl
      | ok form? =>
        cases form? with
        | none => exact ih known' a others
        | some form =>
          have elsewhere := mt (Line.opcode_of_origin found) first
          simp only [Line.nextAddress_shift elsewhere]
          cases form.template.isFinish with
          | true => rfl
          | false =>
            cases line.nextAddress form a with
            | error e => rfl
            | ok next => exact ih known' next others

end Labels

namespace Machine

variable {m m' : Machine} {a d : Word} {lines : List Line}

theorem Moved.write (moved : Moved d m m') (w : Word) :
    Moved d (m.write a w) (m'.write (a + d) w) := by
  intro x
  have old : m'.memory.read (x + d) = m.memory.read x := moved x
  simp only [peek, Machine.write, Memory.read_write, BitVec.add_left_inj, old]

/-- Words are written at the same distance in both machines, also round the end of memory. -/
theorem Moved.writeAll (moved : Moved d m m') (ws : List Word) :
    Moved d (m.writeAll a ws) (m'.writeAll (a + d) ws) := by
  induction ws generalizing m m' a with
  | nil => exact moved
  | cons w ws ih =>
    simp only [Machine.writeAll, Memory.writeAll, Word.add_right_comm a d]
    exact ih (moved.write w)

/-- The second pass writes the same words, moved, and ends in the same way. -/
theorem Moved.emit (moved : Moved d m m') (labels : Labels) (a : Word)
    (unmoved : ∀ line ∈ lines, line.opcode ≠ some ".ORIG")
    (relocatable : ∀ line ∈ lines, line.Relocatable) :
    (m'.emit (labels.shift d) (a + d) lines).1 = (m.emit labels a lines).1 ∧
      Moved d (m.emit labels a lines).2 (m'.emit (labels.shift d) (a + d) lines).2 ∧
      (m.emit labels a lines).2.pc = m.pc ∧
      (m'.emit (labels.shift d) (a + d) lines).2.pc = m'.pc := by
  induction lines generalizing m m' a with
  | nil => exact ⟨rfl, moved, rfl, rfl⟩
  | cons line rest ih =>
    obtain ⟨first, others⟩ := List.forall_mem_cons.mp unmoved
    obtain ⟨movable, movables⟩ := List.forall_mem_cons.mp relocatable
    simp only [Machine.emit_cons, Line.contents?_shift movable first]
    split
    · exact ⟨rfl, moved, rfl, rfl⟩
    · exact ih moved a others movables
    · next ws _ =>
      rw [Word.add_right_comm a d]
      exact ih (moved.writeAll ws) _ others movables
    · next made => exact absurd (Line.opcode_of_contents_origin made) first
    · exact ⟨rfl, moved, rfl, rfl⟩

/-- What the passes make of a stopped machine and a program that begins with an origin. -/
theorem assemble_atOrigin (stopped : m.running = false) (number : Nat) (span : Span) (a : Word)
    (lines : List Line) :
    m.assemble (Line.atOrigin number span a :: lines) =
      match Labels.collectFrom [] a lines with
      | .error e => (.error e, m)
      | .ok labels => Prod.map (Except.map fun _ => labels) id
          (({ m with pc := a } : Machine).emit labels a lines) := by
  have collected : Labels.collect (Line.atOrigin number span a :: lines) =
      Labels.collectFrom [] a lines := rfl
  cases found : Labels.collectFrom [] a lines with
  | error e => exact m.assemble_of_collect_error (collected.trans found)
  | ok labels =>
    have emitted : m.emit labels 0 (Line.atOrigin number span a :: lines) =
        (m.moveOrigin a).emit labels a lines := rfl
    rw [m.assemble_of_collect (collected.trans found), emitted, moveOrigin_eq, stopped]
    rfl

/-- Programs that begin with origins apart by the distance keep it between the machines. -/
theorem Moved.assemble (moved : Moved d m m') (stopped : m.running = false)
    (stopped' : m'.running = false) (number number' : Nat) (span span' : Span) (a : Word)
    (unmoved : ∀ line ∈ lines, line.opcode ≠ some ".ORIG")
    (relocatable : ∀ line ∈ lines, line.Relocatable) :
    let here := m.assemble (Line.atOrigin number span a :: lines)
    let there := m'.assemble (Line.atOrigin number' span' (a + d) :: lines)
    there.1 = here.1.map (Labels.shift d) ∧ Moved d here.2 there.2 ∧
      ∀ labels, here.1 = .ok labels → here.2.pc = a ∧ there.2.pc = a + d := by
  have collected : Labels.collectFrom [] (a + d) lines =
      (Labels.collectFrom [] a lines).map (Labels.shift d) := Labels.collectFrom_shift [] a d unmoved
  rw [assemble_atOrigin stopped, assemble_atOrigin stopped', collected]
  cases Labels.collectFrom [] a lines with
  | error e =>
    refine ⟨rfl, moved, ?_⟩
    rintro labels ⟨⟩
  | ok labels =>
    have start : Moved d { m with pc := a } { m' with pc := a + d } := fun x => moved x
    obtain ⟨same, after, pc, pc'⟩ := start.emit labels a unmoved relocatable
    have relabelled : ∀ passed : Except LayoutError Unit,
        (passed.map fun _ => labels.shift d) = (passed.map fun _ => labels).map (Labels.shift d) := by
      rintro (e | passed) <;> rfl
    exact ⟨(congrArg _ same).trans (relabelled _), after, fun _ _ => ⟨pc, pc'⟩⟩

/-- A program without a second origin, with labels as distances only, has the same outcome at any
two origins. Its labels and its image are moved by the distance between them. -/
theorem assemble_relocated (capacity number number' : Nat) (span span' : Span) (a b : Word)
    {lines : List Line} (unmoved : ∀ line ∈ lines, line.opcode ≠ some ".ORIG")
    (relocatable : ∀ line ∈ lines, line.Relocatable) :
    let here := (withCapacity capacity).assemble (Line.atOrigin number span a :: lines)
    let there := (withCapacity capacity).assemble (Line.atOrigin number' span' b :: lines)
    there.1 = here.1.map (Labels.shift (b - a)) ∧ Moved (b - a) here.2 there.2 ∧
      ∀ labels, here.1 = .ok labels → here.2.pc = a ∧ there.2.pc = b := by
  have fresh : Moved (b - a) (withCapacity capacity) (withCapacity capacity) :=
    fun x => (Memory.read_zero _).trans (Memory.read_zero x).symm
  have distance : a + (b - a) = b := by bv_omega
  have result := fresh.assemble rfl rfl number number' span span' a unmoved relocatable
  rw [distance] at result
  exact result

/-- A text, an instruction that refers to it, and a jump back to the first line. -/
def movableLines : List Line :=
  [{ label := some "TOP", opcode := some "LEA", operands := [.register .r0, .label "TEXT"],
     number := 2, span := ⟨12, 16⟩ },
    { label := some "TEXT", opcode := some ".STRINGZ", operands := [.string "é"], number := 3,
      span := ⟨29, 18⟩ },
    { opcode := some "BR", operands := [.label "TOP"], number := 4, span := ⟨48, 6⟩ },
    { opcode := some ".END", number := 5, span := ⟨55, 4⟩ }]

theorem movable_relocated :
    (∀ line ∈ movableLines, line.opcode ≠ some ".ORIG") ∧
    (∀ line ∈ movableLines, line.Relocatable) ∧
    ∃ m m', new.assemble (Line.atOrigin 1 ⟨0, 12⟩ 0xFFFE :: movableLines) =
        (.ok [("TOP", 0xFFFE), ("TEXT", 0xFFFF)], m) ∧
      new.assemble (Line.atOrigin 1 ⟨0, 7⟩ 1 :: movableLines) =
        (.ok [("TOP", 1), ("TEXT", 2)], m') ∧
      (∀ x, m'.peek (x + 3) = m.peek x) ∧ m.pc = 0xFFFE ∧ m'.pc = 1 := by
  have unmoved : ∀ line ∈ movableLines, line.opcode ≠ some ".ORIG" := by decide
  have relocatable : ∀ line ∈ movableLines, line.Relocatable := by
    simp only [movableLines, List.forall_mem_cons]
    refine ⟨Line.relocatable_of_form rfl ?_, Line.relocatable_of_form rfl ?_,
      Line.relocatable_of_form rfl ?_, Line.relocatable_of_form rfl ?_, ?_⟩ <;> simp
  obtain ⟨labels, image, counters⟩ :=
    assemble_relocated Queue.defaultCapacity 1 1 ⟨0, 12⟩ ⟨0, 7⟩ 0xFFFE 1 unmoved relocatable
  obtain ⟨pc, pc'⟩ := counters _ rfl
  exact ⟨unmoved, relocatable, _, _, Prod.ext rfl rfl, Prod.ext labels rfl, image, pc, pc'⟩

end Machine

end LC3
