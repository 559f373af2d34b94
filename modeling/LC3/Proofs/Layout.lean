import LC3.Proofs.FormTable
import LC3.Proofs.LabelAddresses

/-!
# The image is the layout of the program

A line has a start address and a list of words. The layout of a program is told from its lines
alone: each line starts after the words of the one before it, or at the origin that the one before
it sets, and lays its words at consecutive addresses. What an accepted program leaves in a machine
is its layout, the last word laid in each cell, and nothing besides cells and program counter
changes.
-/

namespace LC3

namespace Operand

/-- The number that the operand is, or the address of the label. -/
def value (labels : Labels) : Operand → Word
  | .number w => w
  | .label name => (labels.lookup name).getD 0
  | _ => 0

def terminated : Operand → List Word
  | .string s => textWords s ++ [0]
  | _ => []

/-- What the operand is resolved to where a label stands for its address. -/
def argument (labels : Labels) : Operand → Argument
  | .register r => .register r
  | .string s => .text s
  | x => .value (x.value labels)

theorem value_of_argument {labels : Labels} {x : Operand} {w : Word}
    (h : x.argument labels = .value w) : x.value labels = w := by
  cases x <;> cases h <;> rfl

theorem terminated_of_argument {labels : Labels} {x : Operand} {s : String}
    (h : x.argument labels = .text s) : x.terminated = textWords s ++ [0] := by
  cases x <;> cases h
  rfl

end Operand

/-- Without an offset slot, operands are resolved to what they stand for anywhere. -/
theorem Slot.eq_map_argument_of_resolveAll {labels : Labels} {a : Word} {slots : List Slot}
    {xs : List Operand} {arguments : List Argument} (accepted : acceptAll slots xs = true)
    (absolute : Slot.offset ∉ slots) (resolved : resolveAll labels a slots xs = .ok arguments) :
    arguments = xs.map (Operand.argument labels) := by
  induction slots generalizing xs arguments with
  | nil =>
    cases List.eq_nil_of_length_eq_zero (length_eq_of_acceptAll accepted).symm
    cases resolved
    rfl
  | cons slot slots ih =>
    cases xs with
    | nil => exact absurd accepted (by simp [acceptAll])
    | cons x xs =>
      simp only [acceptAll, Bool.and_eq_true] at accepted
      simp only [List.mem_cons, not_or] at absolute
      obtain ⟨first, others, hfirst, hothers, rfl⟩ := resolveAll_cons resolved
      rw [List.map_cons, ← ih accepted.2 absolute.2 hothers]
      congr 1
      cases x with
      | label name =>
        simp only [resolve] at hfirst
        split at hfirst
        · next t found =>
          cases hfirst
          cases slot <;> simp_all [labelValue, Operand.argument, Operand.value]
        · cases hfirst
      | _ =>
        cases hfirst
        rfl

namespace Contents

@[simp] def written : Contents → List Word
  | .words ws => ws
  | _ => []

@[simp] def origin? : Contents → Option Word
  | .origin o => some o
  | _ => none

end Contents

namespace Line

def beforeFinish (lines : List Line) : List Line :=
  lines.takeWhile fun line => line.opcode ≠ some Keyword.finish

/-- The single word that a line of an instruction is encoded as. -/
def encodedWord? (line : Line) (labels : Labels) (a : Word) : Option Word :=
  match line.contents? labels a with
  | .ok (some (.words [w])) => some w
  | _ => none

def words (line : Line) (labels : Labels) (a : Word) : List Word :=
  match line.opcode with
  | none => []
  | some opcode =>
    if opcode = ".ORIG" then []
    else if opcode = ".FILL" then line.operands.map (Operand.value labels)
    else if opcode = ".BLKW" then
      line.operands.flatMap fun x => List.replicate (x.value labels).toNat 0
    else if opcode = ".STRINGZ" then line.operands.flatMap Operand.terminated
    else (line.encodedWord? labels a).toList

def origin? (line : Line) (labels : Labels) : Option Word :=
  if line.opcode = some ".ORIG" then line.operands.head?.map (Operand.value labels) else none

def following (line : Line) (labels : Labels) (a : Word) : Word :=
  (line.origin? labels).getD (a + BitVec.ofNat 16 (line.words labels a).length)

end Line

/-- The start addresses and words of lines that begin at the address. -/
def layout (labels : Labels) : Word → List Line → List (Word × List Word)
  | _, [] => []
  | a, line :: rest => (a, line.words labels a) :: layout labels (line.following labels a) rest

/-- Words at consecutive addresses, the last of which is followed by the first. -/
def laid (a : Word) : List Word → List (Word × Word)
  | [] => []
  | w :: ws => (a, w) :: laid (a + 1) ws

def cells (segments : List (Word × List Word)) : List (Word × Word) :=
  segments.flatMap fun s => laid s.1 s.2

/-- The word laid last at the address. -/
def lastLaid (cells : List (Word × Word)) (x : Word) : Option Word := cells.reverse.lookup x

@[simp] theorem lastLaid_nil (x : Word) : lastLaid [] x = none := rfl

theorem lastLaid_append (before after : List (Word × Word)) (x : Word) :
    lastLaid (before ++ after) x = (lastLaid after x).or (lastLaid before x) := by
  rw [lastLaid, List.reverse_append, List.lookup_append]
  rfl

theorem lastLaid_singleton (a x w : Word) :
    lastLaid [(a, w)] x = if a = x then some w else none := by
  simp [lastLaid, eq_comm (a := x)]

/-- Words written one after another are laid in memory. -/
theorem Memory.read_writeAll_eq_lastLaid (m : Memory) (a x : Word) (ws : List Word) :
    (m.writeAll a ws).read x = (lastLaid (laid a ws) x).getD (m.read x) := by
  induction ws generalizing m a with
  | nil => rfl
  | cons w ws ih =>
    have split : laid a (w :: ws) = [(a, w)] ++ laid (a + 1) ws := rfl
    rw [writeAll, ih, read_write, split, lastLaid_append, lastLaid_singleton]
    cases lastLaid (laid (a + 1) ws) x with
    | some v => rfl
    | none => by_cases here : a = x <;> simp [here]

namespace Line

variable {line : Line} {labels : Labels} {a : Word}

theorem layout_of_blank (made : line.contents? labels a = .ok none) :
    line.words labels a = [] ∧ line.origin? labels = none ∧ line.following labels a = a ∧
      line.opcode ≠ some Keyword.finish := by
  have bare := opcode_of_form?_eq_ok_none (form?_of_contents?_eq_ok_none made)
  simp [words, following, origin?, bare]

/-- The layout tells the contents of a line from its opcode and operands. -/
theorem layout_of_contents {c : Contents} (made : line.contents? labels a = .ok (some c)) :
    line.words labels a = c.written ∧ line.origin? labels = c.origin? ∧
      (line.opcode = some Keyword.finish ↔ c = .finish) := by
  obtain ⟨form, arguments, found, accepted, resolved, makes⟩ := makes_of_contents? made
  obtain ⟨opcode, coded, hfind⟩ := form?_eq_ok_some found
  have directive : ∀ name, form.template.directive? = some name ↔
      name ∈ Keyword.directives ∧ line.opcode = some name := fun _ => directive?_eq_some_iff found
  have single : ∀ name x, form.template.directive? = some name → arguments = [x] →
      line.opcode = some name ∧ ∃ y, line.operands = [y] ∧ y.argument labels = x := by
    intro name x named only
    have absolute := Form.offset_not_mem_slots (Form.find?_spec hfind).1 named
    have operands := Slot.eq_map_argument_of_resolveAll accepted absolute resolved
    exact ⟨((directive name).mp named).2, List.map_eq_singleton_iff.mp (operands.symm.trans only)⟩
  generalize form.template = t at makes directive single
  cases makes with
  | @instruction t arguments i encodes =>
    -- The opcode of an operation is no directive, so the words are the encoded one.
    have plain : t.directive? = none := by cases t <;> first | rfl | cases encodes
    have other : ∀ name ∈ Keyword.directives, opcode ≠ name := by
      rintro name listed rfl
      cases plain.symm.trans ((directive opcode).mpr ⟨listed, coded⟩)
    simp only [Keyword.directives, List.forall_mem_cons] at other
    simp [words, encodedWord?, origin?, Contents.instruction, coded, made, other]
  | fill =>
    obtain ⟨named, x, operands, value⟩ := single ".FILL" _ rfl rfl
    simp [words, origin?, Keyword.finish, named, operands, Operand.value_of_argument value]
  | origin =>
    obtain ⟨named, x, operands, value⟩ := single ".ORIG" _ rfl rfl
    simp [words, origin?, Keyword.finish, named, operands, Operand.value_of_argument value]
  | block =>
    obtain ⟨named, x, operands, value⟩ := single ".BLKW" _ rfl rfl
    simp [words, origin?, Keyword.finish, named, operands, Operand.value_of_argument value]
  | text =>
    obtain ⟨named, x, operands, value⟩ := single ".STRINGZ" _ rfl rfl
    simp [words, origin?, Keyword.finish, named, operands, Operand.terminated_of_argument value]
  | finish =>
    obtain ⟨-, named⟩ := (directive ".END").mp rfl
    simp [words, encodedWord?, origin?, Keyword.finish, named, made]

theorem following_of_contents {c : Contents} (made : line.contents? labels a = .ok (some c)) :
    line.following labels a = c.next a := by
  obtain ⟨written, origin, -⟩ := layout_of_contents made
  rw [following, written, origin]
  cases c <;> simp [Contents.next]

theorem beforeFinish_cons (going : line.opcode ≠ some Keyword.finish) (rest : List Line) :
    beforeFinish (line :: rest) = line :: beforeFinish rest :=
  List.takeWhile_cons_of_pos (by simpa using going)

theorem beforeFinish_finish (finish : line.opcode = some Keyword.finish) (rest : List Line) :
    beforeFinish (line :: rest) = [] :=
  List.takeWhile_cons_of_neg (by simpa using finish)

end Line

/-- The words that a line lays are laid before those of the lines that follow. -/
theorem lastLaid_cells_cons (a x : Word) (ws : List Word) (segments : List (Word × List Word)) :
    lastLaid (cells ((a, ws) :: segments)) x =
      (lastLaid (cells segments) x).or (lastLaid (laid a ws) x) := by
  rw [cells, List.flatMap_cons, lastLaid_append, ← cells]

namespace Machine

/-- The program counter after a stopped machine was moved to origins in order. -/
def originAfter (m : Machine) (origins : List Word) : Word :=
  if m.running then m.pc else origins.getLast?.getD m.pc

theorem originAfter_cons (m : Machine) (o : Word) (origins : List Word) :
    m.originAfter (o :: origins) = (m.moveOrigin o).originAfter origins := by
  rw [moveOrigin_eq]
  cases running : m.running <;> simp [originAfter, running, List.getLast?_cons]

/-- Lines that are written without an error leave their layout behind. -/
theorem emit_eq_layout {m m' : Machine} {labels : Labels} {a : Word} {lines : List Line}
    (succeeds : m.emit labels a lines = (.ok (), m')) :
    (∀ x, m'.peek x =
      (lastLaid (cells (layout labels a (Line.beforeFinish lines))) x).getD (m.peek x)) ∧
    m'.pc = m.originAfter ((Line.beforeFinish lines).filterMap fun line => line.origin? labels) := by
  induction lines generalizing m a with
  | nil =>
    cases succeeds
    exact ⟨fun x => rfl, by simp [Line.beforeFinish, originAfter]⟩
  | cons line rest ih =>
    rw [emit_cons] at succeeds
    split at succeeds
    · cases succeeds
    · next made =>
      obtain ⟨nothing, unmoved, next, going⟩ := Line.layout_of_blank made
      obtain ⟨memory, pc⟩ := ih succeeds
      rw [Line.beforeFinish_cons going]
      constructor
      · intro x
        rw [layout, lastLaid_cells_cons, nothing, next, memory]
        simp [laid]
      · simp only [List.filterMap_cons, unmoved, pc]
    · next ws made =>
      obtain ⟨written, unmoved, finish⟩ := Line.layout_of_contents made
      have next := Line.following_of_contents made
      obtain ⟨memory, pc⟩ := ih succeeds
      rw [Line.beforeFinish_cons (by simp [finish])]
      constructor
      · intro x
        have first : (m.writeAll a ws).peek x = (lastLaid (laid a ws) x).getD (m.peek x) :=
          m.memory.read_writeAll_eq_lastLaid a x ws
        rw [layout, lastLaid_cells_cons, written, next, memory, first, Option.getD_or]
        rfl
      · simp only [List.filterMap_cons, unmoved, Contents.origin?, pc]
        rfl
    · next o made =>
      obtain ⟨nothing, moved, finish⟩ := Line.layout_of_contents made
      have next := Line.following_of_contents made
      obtain ⟨memory, pc⟩ := ih succeeds
      rw [Line.beforeFinish_cons (by simp [finish])]
      constructor
      · intro x
        have kept : (m.moveOrigin o).peek x = m.peek x := by rw [moveOrigin_eq]; rfl
        rw [layout, lastLaid_cells_cons, nothing, next, memory, kept]
        simp [laid, Contents.written, Contents.next]
      · simp only [List.filterMap_cons, moved, Contents.origin?, originAfter_cons, pc]
    · next made =>
      obtain ⟨-, -, finish⟩ := Line.layout_of_contents made
      rw [Line.beforeFinish_finish (finish.mpr rfl)]
      cases succeeds
      exact ⟨fun x => rfl, by simp [originAfter]⟩

/-- An accepted program leaves its layout in the machine: a cell holds the word laid last in it, or
what it held before if none is, and a stopped machine stands at the last origin, if there is one.
Nothing else changes. -/
theorem assemble_eq_layout {m m' : Machine} {lines : List Line} {labels : Labels}
    (accepted : m.assemble lines = (.ok labels, m')) :
    (∀ x, m'.peek x =
      (lastLaid (cells (layout labels 0 (Line.beforeFinish lines))) x).getD (m.peek x)) ∧
    m'.pc = m.originAfter ((Line.beforeFinish lines).filterMap fun line => line.origin? labels) ∧
    m' = { m with memory := m'.memory, pc := m'.pc } := by
  obtain ⟨-, emitted⟩ := assemble_eq_ok_iff.mp accepted
  obtain ⟨image, counter⟩ := emit_eq_layout emitted
  obtain ⟨memory, pc, frame⟩ := m.frame_emit labels 0 lines
  rw [emitted] at frame
  have kept : m' = { m with memory := memory, pc := pc } := frame
  exact ⟨image, counter, by rw [kept]⟩

/-- A text runs round the end of memory, and lines after a second origin lie over its last bytes. -/
def overlappingLines : List Line :=
  [{ opcode := some ".ORIG", operands := [.number 0xFFFF], number := 1, span := ⟨0, 11⟩ },
    { label := some "TEXT", opcode := some ".STRINGZ", operands := [.string "é"], number := 2,
      span := ⟨12, 18⟩ },
    { opcode := some ".ORIG", operands := [.number 0], number := 3, span := ⟨31, 8⟩ },
    { opcode := some "LEA", operands := [.register .r0, .label "TEXT"], number := 4,
      span := ⟨40, 12⟩ },
    { opcode := some ".END", number := 5, span := ⟨53, 4⟩ },
    { opcode := some "NONE", number := 6, span := ⟨58, 4⟩ }]

theorem overlapping_layout :
    ∃ m, (new.write 5 9).assemble overlappingLines = (.ok [("TEXT", 0xFFFF)], m) ∧
      m.peek 0xFFFF = 0xC3 ∧ m.peek 0 = 0xE1FE ∧ m.peek 1 = 0 ∧ m.peek 5 = 9 ∧ m.pc = 0 := by
  have accepted : (new.write 5 9).assemble overlappingLines =
      (.ok [("TEXT", 0xFFFF)], ((new.write 5 9).assemble overlappingLines).2) := rfl
  obtain ⟨image, pc, -⟩ := assemble_eq_layout accepted
  have old : (new.write 5 9).peek 5 = 9 := by
    simp [peek, write, Memory.read_write]
  refine ⟨_, accepted, (image _).trans rfl, (image _).trans rfl, (image _).trans rfl, ?_, pc⟩
  exact (image 5).trans old

end Machine

end LC3
