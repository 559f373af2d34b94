import LC3.Diagnostic
import LC3.Proofs.LayoutErrors
import LC3.Proofs.SourceLines
import Mathlib.Control.Monad.Basic

/-!
# The places of lines and errors

Each line of a source covers its own text without the terminator. A source that is refused has one
mark, inside the text of the line that the error names: an error of the reader marks the text that
is wrong, and an error of the passes its whole line.
-/

namespace LC3

namespace Source

theorem Listed.getElem {source : List Char} {index : Nat} {lines : List Line}
    (listed : Listed source index lines) (i : Nat) (inside : i < lines.length) :
    ReadAt source (index + i) lines[i] := by
  induction listed generalizing i with
  | nil index => cases inside
  | finish readAt finish =>
    cases i with
    | zero => exact readAt
    | succ i => cases Nat.lt_of_succ_lt_succ inside
  | @cons index line lines readAt going listed ih =>
    cases i with
    | zero => exact readAt
    | succ i =>
      have later := ih i (Nat.lt_of_succ_lt_succ inside)
      rwa [Nat.add_assoc, Nat.add_comm 1] at later

end Source

theorem Line.FirstFlaw.exists_line {declared : List String} {lines : List Line} {e : LayoutError}
    (flaw : FirstFlaw declared lines e) : ∃ line ∈ lines, ∃ kind, e = line.error kind := by
  induction flaw with
  | here flawed => exact ⟨_, List.mem_cons_self, _, rfl⟩
  | later sound going found ih =>
    obtain ⟨line, present, kind, same⟩ := ih
    exact ⟨line, List.mem_cons_of_mem _ present, kind, same⟩

/-- The passes blame one of the lines. -/
theorem Machine.exists_line_of_assemble {m m' : Machine} {lines : List Line} {e : LayoutError}
    (refused : m.assemble lines = (.error e, m')) :
    ∃ line ∈ lines, ∃ kind, e = line.error kind := by
  cases collected : Labels.collect lines with
  | error e' =>
    rw [m.assemble_of_collect_error collected] at refused
    cases refused
    exact (Labels.collectFrom_eq_error_iff.mp collected).exists_line
  | ok labels =>
    have start : Moment.InStep labels ⟨m, 0, lines⟩ := ⟨[], collected⟩
    rw [m.assemble_of_collect collected] at refused
    rcases Moment.emit_cases start with
      ⟨⟨m₁, emitted⟩, -⟩ | ⟨before, line, name, m₁, ⟨⟨after, shape⟩, -⟩, emitted, -⟩
    · rw [emitted] at refused
      cases refused
    · rw [emitted] at refused
      cases refused
      exact ⟨line, by simp [shape], _, rfl⟩

namespace AssemblyError

/-- What an error covers, where `before` precedes its line and the text of the line is `left`, then
what is covered, then `right`. The reader's errors cover what is wrong, after a text that is read
without an error; those of the passes cover the line. -/
def Covers (before left found right : List Char) : AssemblyError → Prop
  | .parse e => e.span.offset + 1 = byteLength before + e.column ∧ e.kind.Marks found right ∧
      ∃ s, (Cursor.start left).statement = .ok s
  | .layout _ => left = [] ∧ right = []

/-- The error has one mark, which is its span. -/
theorem marks_diagnostic (e : AssemblyError) :
    ∃ mark, e.diagnostic.marks = [mark] ∧ mark.span = e.span := by
  rcases e with ⟨kind, line, column, span⟩ | ⟨kind, line, span⟩ <;> cases kind <;>
    exact ⟨_, rfl, rfl⟩

end AssemblyError

/-- Line `i` that is read has number `i + 1` and covers exactly the text of that line of the source.
A refused source has one mark. It lies in the text of the line with the error's number, which it
cuts between characters, and covers what the error is about. -/
theorem source_places (source : String) :
    (∀ lines, Source.parse source = .ok lines → ∀ (i : Nat) (inside : i < lines.length),
      lines[i].number = i + 1 ∧ ∃ before text, Source.LineAt source.toList i before text ∧
        lines[i].span = ⟨byteLength before, byteLength text⟩) ∧
    ∀ e, assemble source = .error e →
      ∃ mark before left found right, e.diagnostic.marks = [mark] ∧ 1 ≤ e.line ∧
        Source.LineAt source.toList (e.line - 1) before (left ++ (found ++ right)) ∧
        mark.span = ⟨byteLength before + byteLength left, byteLength found⟩ ∧
        e.Covers before left found right := by
  have outcome := Source.parse_outcome source
  refine ⟨fun lines read i inside => ?_, fun e refused => ?_⟩
  · rw [read] at outcome
    obtain ⟨number, before, text, lineAt, span, -⟩ := outcome.getElem i inside
    rw [Nat.zero_add] at number lineAt
    exact ⟨number, before, text, lineAt, span⟩
  · obtain ⟨mark, marks, place⟩ := e.marks_diagnostic
    cases read : Source.parse source with
    | error p =>
      rw [read] at outcome
      obtain ⟨before, left, found, right, positive, lineAt, span, column, covers⟩ := outcome
      simp only [assemble, read] at refused
      cases refused
      refine ⟨mark, before, left, found, right, marks, positive, lineAt, place.trans span, ?_,
        covers⟩
      rw [span, column, Nat.add_assoc]
    | ok lines =>
      rw [read] at outcome
      cases assembled : Machine.new.assemble lines with
      | mk result m =>
        cases result with
        | ok labels =>
          simp only [assemble, read, assembled] at refused
          cases refused
        | error layout =>
          simp only [assemble, read, assembled] at refused
          cases refused
          obtain ⟨line, present, kind, rfl⟩ := Machine.exists_line_of_assemble assembled
          obtain ⟨i, inside, rfl⟩ := List.getElem_of_mem present
          obtain ⟨number, before, text, lineAt, span, -⟩ := outcome.getElem i inside
          rw [Nat.zero_add] at number lineAt
          refine ⟨mark, before, [], text, [], marks, ?_, ?_, place.trans span, rfl, rfl⟩
          · show 1 ≤ lines[i].number
            rw [number]
            exact Nat.succ_pos i
          · have index : lines[i].number - 1 = i := by rw [number, Nat.add_sub_cancel]
            rw [List.append_nil, List.nil_append]
            exact index.symm ▸ lineAt

def brokenSource : String := "; \u00e9\r\nA .STRINGZ \"a\\q\" ;\r\nHALT"

def danglingSource : String := "\u00e9\n LD R0, GONE\r"

/-- The mark of the one source runs from the opening quote to the end of its line, and that of the
other covers the line. -/
theorem places_of_refused :
    (∃ mark before left found right,
      (AssemblyError.parse ⟨.malformedString, 2, 12, ⟨17, 7⟩⟩).diagnostic.marks = [mark] ∧
      Source.LineAt brokenSource.toList 1 before (left ++ (found ++ right)) ∧
      mark.span = ⟨byteLength before + byteLength left, byteLength found⟩ ∧
      AssemblyError.Covers before left found right
        (.parse ⟨.malformedString, 2, 12, ⟨17, 7⟩⟩)) ∧
    (∃ before text, Source.LineAt danglingSource.toList 1 before text ∧
      (⟨3, 12⟩ : Span) = ⟨byteLength before, byteLength text⟩) ∧
    ∃ mark before left found right,
      (AssemblyError.layout ⟨.undefinedLabel "GONE", 2, ⟨3, 12⟩⟩).diagnostic.marks = [mark] ∧
      Source.LineAt danglingSource.toList 1 before (left ++ (found ++ right)) ∧
      mark.span = ⟨byteLength before + byteLength left, byteLength found⟩ ∧
      AssemblyError.Covers before left found right
        (.layout ⟨.undefinedLabel "GONE", 2, ⟨3, 12⟩⟩) := by
  have broken : assemble brokenSource = .error (.parse ⟨.malformedString, 2, 12, ⟨17, 7⟩⟩) := by
    have failed : Source.parse brokenSource = .error ⟨.malformedString, 2, 12, ⟨17, 7⟩⟩ := by
      decide +kernel
    rw [assemble, failed]
  have read : Source.parse danglingSource = .ok
      [{ label := some "\u00e9", number := 1, span := ⟨0, 2⟩ },
        { opcode := some "LD", operands := [.register .r0, .label "GONE"], number := 2,
          span := ⟨3, 12⟩ }] := by
    decide +kernel
  have dangling : assemble danglingSource =
      .error (.layout ⟨.undefinedLabel "GONE", 2, ⟨3, 12⟩⟩) := by
    rw [assemble, read]
    rfl
  obtain ⟨lines, marked⟩ := source_places danglingSource
  refine ⟨?_, (lines _ read 1 (by decide)).2, ?_⟩
  · obtain ⟨mark, before, left, found, right, marks, -, place⟩ :=
      (source_places brokenSource).2 _ broken
    exact ⟨mark, before, left, found, right, marks, place⟩
  · obtain ⟨mark, before, left, found, right, marks, -, place⟩ := marked _ dangling
    exact ⟨mark, before, left, found, right, marks, place⟩

end LC3
