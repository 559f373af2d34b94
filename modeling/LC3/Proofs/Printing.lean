import LC3.Proofs.SourceLines
import LC3.Proofs.Unplaced
import Mathlib.Control.Monad.Basic

/-!
# Printed lines read back

The canonical text of a line that was read says the same as the line. The exception is a string
with a character that quoted text has by its code point: no escape of a literal stands for it, and
the first such line is refused. So a source can be printed and read again without a change to the
image, unless it has such a string.
-/

namespace LC3

variable {c : Cursor} {s : Statement} {comment : Option String}

/-- Whether a string among the operands has a character that is printed by its code point. -/
def Statement.isCoded (s : Statement) : Bool := s.operands.any Operand.isCoded

namespace Operand

theorem quote_of_isCoded {x : Operand} (coded : x.isCoded = true) :
    ∃ text, x = .string text ∧ text.toList.any Quoted.isCoded = true := by
  cases x with
  | string text => exact ⟨text, rfl, coded⟩
  | _ => cases coded

theorem begins_text {x : Operand} (readsBack : x.ReadsBack) :
    ∃ d others, x.text.toList = d :: others ∧ endsToken d = false := by
  cases coded : x.isCoded with
  | false => exact (readsBack coded).begins
  | true =>
    obtain ⟨text, rfl, -⟩ := quote_of_isCoded coded
    exact ⟨'"', _, Quoted.toList_quote text, rfl⟩

theorem no_feed_text {x : Operand} (readsBack : x.ReadsBack) : '\n' ∉ x.text.toList := by
  cases coded : x.isCoded with
  | false => exact (readsBack coded).no_feed
  | true =>
    obtain ⟨text, rfl, -⟩ := quote_of_isCoded coded
    rw [Operand.text, Quoted.toList_quote]
    simpa [StringLiteral.literal] using fun c _ => (Quoted.unbroken_escape c).1

end Operand

theorem intercalate_cons_eq_append (separator text : List Char) (texts : List (List Char)) :
    ∃ tail, separator.intercalate (text :: texts) = text ++ tail := by
  cases texts with
  | nil => exact ⟨[], by rw [List.intercalate_singleton, List.append_nil]⟩
  | cons text' texts => exact ⟨_, by rw [List.intercalate_cons_cons, List.append_assoc]⟩

/-- The first string with a code point is malformed, after the operands in front of it are read. -/
theorem Cursor.operands_of_isCoded {xs : List Operand} (readsBack : ∀ x ∈ xs, x.ReadsBack)
    (coded : xs.any Operand.isCoded = true)
    (ahead : c.rest = operandsText (xs.map (·.text.toList)) ++ commentText comment) :
    ∃ e, c.operands = .error e ∧ e.kind = .malformedString := by
  induction xs generalizing c with
  | nil => cases coded
  | cons x xs ih =>
    obtain ⟨first, others⟩ := List.forall_mem_cons.mp readsBack
    cases here : x.isCoded with
    | false =>
      rw [List.any_cons, here, Bool.false_or] at coded
      obtain ⟨next, after, read⟩ := operands_operandsText (first here) ahead
      obtain ⟨e, failed, kind⟩ := ih others coded after
      exact ⟨e, by rw [read, failed]; rfl, kind⟩
    | true =>
      obtain ⟨text, rfl, inside⟩ := Operand.quote_of_isCoded here
      obtain ⟨tail, shape⟩ := intercalate_cons_eq_append [',', ' '] (Quoted.quote text).toList
        (xs.map (·.text.toList))
      rw [List.map_cons, Operand.text, operandsText, shape, List.cons_append,
        List.append_assoc] at ahead
      obtain ⟨skipped, going⟩ := skipBlanks_of_blank (Operand.begins_text first) ahead
      exact ⟨_, operands_of_error going (Quoted.operand_quote inside skipped), rfl⟩

namespace Statement

theorem toList_operationText (k : String) {operands : List Operand}
    (shown : ∀ x ∈ operands, x.text.toList ≠ []) :
    (operationText k operands).toList =
      k.toList ++ operandsText (operands.map (·.text.toList)) := by
  cases operands with
  | nil => simp [operationText, operandsText]
  | cons x xs =>
    have list : (", ".intercalate ((x :: xs).map Operand.text)).toList =
        [',', ' '].intercalate ((x :: xs).map (·.text.toList)) := by
      rw [String.toList_intercalate, List.map_map]
      rfl
    have nonempty : ", ".intercalate ((x :: xs).map Operand.text) ≠ "" := by
      intro empty
      obtain ⟨tail, shape⟩ := intercalate_cons_eq_append [',', ' '] x.text.toList
        (xs.map (·.text.toList))
      rw [empty, List.map_cons, shape] at list
      exact shown x List.mem_cons_self (List.append_eq_nil_iff.mp list.symm).1
    simp only [operationText, String.isEmpty_iff, if_neg nonempty, String.toList_append, list,
      List.append_assoc]
    rfl

/-- The text of a line with an opcode. -/
theorem toList_text {k : String} (opcode : s.opcode = some k)
    (shown : ∀ x ∈ s.operands, x.text.toList ≠ []) :
    s.text.toList = labelText s.label ++
      (k.toList ++ (operandsText (s.operands.map (·.text.toList)) ++ commentText s.comment)) := by
  have operation := toList_operationText k shown
  obtain ⟨label, opcode, operands, comment⟩ := s
  cases opcode
  cases label <;> cases comment <;> simp [text, labelText, commentText, operation]

/-- The text of a line without an opcode is its label with the comment behind it. -/
theorem toList_text_bare (bare : s.opcode = none) :
    s.text.toList = match s.label, s.comment with
      | some name, comment => name.toList ++ commentText comment
      | none, some comment => ';' :: comment.toList
      | none, none => [] := by
  obtain ⟨label, opcode, operands, comment⟩ := s
  cases bare
  cases label <;> cases comment <;> simp [text, commentText]

end Statement

namespace Cursor

variable {c' : Cursor}

theorem Yields.shown (yields : c'.Yields s) : ∀ x ∈ s.operands, x.text.toList ≠ [] := by
  intro x present empty
  obtain ⟨d, others, begins, -⟩ := Operand.begins_text (yields.operands x present)
  cases empty.symm.trans begins

/-- The text of a line that was read is read as the line again, if it has no code points. -/
theorem statement_text (yields : c'.Yields s) (plain : s.isCoded = false)
    (ahead : c.rest = s.text.toList) : c.statement = .ok s := by
  cases opcode : s.opcode with
  | some k =>
    have readable : ∀ x ∈ s.operands, ReadsAs x.text.toList x := fun x present =>
      yields.operands x present (by simpa using List.any_eq_false.mp plain x present)
    rw [s.toList_text opcode yields.shown] at ahead
    have read := statement_of_readsAs (s.operands.map fun x => (x.text.toList, x))
      yields.label (yields.opcode k opcode) (by simpa using readable)
      (by simpa [Function.comp_def] using ahead)
    simpa [Function.comp_def, ← opcode] using read
  | none =>
    have none := yields.bare opcode
    rw [s.toList_text_bare opcode] at ahead
    obtain ⟨label, opcode, operands, comment⟩ := s
    subst opcode none
    cases label with
    | some name =>
      have ended : (c.moveTo (commentText comment)).skipBlanks.ending? = some comment :=
        ending?_of_commentText rfl
      rw [statement_of_label (yields.label name rfl) (stops_commentText comment) ahead, afterLabel,
        ended]
    | none =>
      have ended : c.skipBlanks.ending? = some comment := by
        cases comment with
        | none => simp [skipBlanks, ahead, moveTo_rest, ending?]
        | some text => simp [skipBlanks, ahead, moveTo_rest, ending?, isBlank]
      rw [statement, ended]

/-- The text of a line that was read is malformed, if it has a code point. -/
theorem statement_text_of_isCoded (yields : c'.Yields s) (coded : s.isCoded = true)
    (ahead : c.rest = s.text.toList) :
    ∃ e, c.statement = .error e ∧ e.kind = .malformedString := by
  cases opcode : s.opcode with
  | none =>
    rw [Statement.isCoded, yields.bare opcode] at coded
    cases coded
  | some k =>
    rw [s.toList_text opcode yields.shown] at ahead
    obtain ⟨next, after, read⟩ := statement_operation yields.label (yields.opcode k opcode)
      (stops_operandsText _ s.comment) ahead
    obtain ⟨e, failed, kind⟩ := operands_of_isCoded yields.operands coded after
    exact ⟨e, by rw [read, operation, failed], kind⟩

/-- There is no line feed in the text of a line that was read. -/
theorem Yields.no_feed_text (yields : c'.Yields s) (clean : '\n' ∉ c'.rest) :
    '\n' ∉ s.text.toList := by
  have inComment : ∀ text ∈ s.comment, '\n' ∉ text.toList := fun text present feed =>
    clean ((yields.comment text present).mem feed)
  have behind : '\n' ∉ commentText s.comment := by
    cases comment : s.comment with
    | none => exact List.not_mem_nil
    | some text => simpa [commentText] using inComment text comment
  cases opcode : s.opcode with
  | some k =>
    have operation := Source.not_mem_operation s.label
      (s.operands.map fun x => (x.text.toList, x)) yields.label (yields.opcode k opcode)
      (c := '\n') rfl (by decide)
      (by simpa using fun x present => Operand.no_feed_text (yields.operands x present))
    rw [s.toList_text opcode yields.shown]
    simpa [Function.comp_def, behind] using operation
  | none =>
    rw [s.toList_text_bare opcode]
    split
    · next name label =>
      simp only [List.mem_append, not_or]
      exact ⟨not_mem_of_endsToken rfl (yields.label name label).isToken.unbroken, behind⟩
    · next text label same => simpa using inComment text same
    · exact List.not_mem_nil

end Cursor

namespace Source

/-- The lines with a carriage return and a line feed behind each. -/
def print (lines : List Line) : String := String.join (lines.map fun line => line.text ++ "\r\n")

theorem toList_print_cons (line : Line) (lines : List Line) :
    (print (line :: lines)).toList =
      line.text.toList ++ ['\r'] ++ '\n' :: (print lines).toList := by
  simp [print]

variable {source : List Char} {index : Nat} {line : Line} {lines : List Line}

theorem ReadAt.yields (readAt : ReadAt source index line) :
    ∃ c : Cursor, '\n' ∉ c.rest ∧ c.Yields line.toStatement := by
  obtain ⟨-, before, text, lineAt, -, read⟩ := readAt
  have outcome := (Cursor.start text).statement_outcome
  rw [read] at outcome
  exact ⟨_, lineAt.no_feed, outcome⟩

/-- The first of the printed lines is cut off as it was printed, and is read as the line or refused
for its code points. -/
theorem parseLine_print (readAt : ReadAt source index line) (lines : List Line) (offset : Nat) :
    ∃ raw, rawLines (print (line :: lines)).toList = raw :: rawLines (print lines).toList ∧
      (line.isCoded = false → ∃ line', parseLine (index + 1) offset raw = .ok line' ∧
        line'.unplaced = line.unplaced) ∧
      (line.isCoded = true → ∃ e, parseLine (index + 1) offset raw = .error e ∧
        e.kind = .malformedString ∧ e.line = line.number) := by
  obtain ⟨c, clean, yields⟩ := readAt.yields
  have clean' : '\n' ∉ line.text.toList ++ ['\r'] := by
    simpa using yields.no_feed_text clean
  refine ⟨_, by rw [toList_print_cons, rawLines_cons clean'], fun plain => ?_, fun coded => ?_⟩
  · have read := Cursor.statement_text (c := .start line.text.toList) yields plain rfl
    refine ⟨{ line with span := ⟨offset, byteLength line.text.toList⟩ }, ?_, rfl⟩
    simp only [parseLine, withoutTerminator_feed, stripLast_concat, read, readAt.number]
  · obtain ⟨e, failed, kind⟩ :=
      Cursor.statement_text_of_isCoded (c := .start line.text.toList) yields coded rfl
    refine ⟨e.inSource (index + 1) offset, ?_, kind, readAt.number.symm⟩
    simp only [parseLine, withoutTerminator_feed, stripLast_concat, failed]

/-- What reading comes to is the lines without their places, or the error of the first of them that
has a code point. -/
def ReadsAgain (lines : List Line) (result : Except ParseError (List Line)) : Prop :=
  (lines.any (·.isCoded) = false → ∃ lines', result = .ok lines' ∧
    lines'.map Line.unplaced = lines.map Line.unplaced) ∧
  ∀ line, lines.find? (·.isCoded) = some line → ∃ e, result = .error e ∧
    e.kind = .malformedString ∧ e.line = line.number

theorem readsAgain_nil : ReadsAgain [] (.ok []) := ⟨fun _ => ⟨[], rfl, rfl⟩, nofun⟩

theorem readsAgain_cons (readAt : ReadAt source index line) (offset : Nat)
    (last : line.opcode = some Keyword.finish → lines = [])
    (others : ∀ offset, ReadsAgain lines
      (parseLines (index + 1 + 1) offset (rawLines (print lines).toList))) :
    ReadsAgain (line :: lines)
      (parseLines (index + 1) offset (rawLines (print (line :: lines)).toList)) := by
  obtain ⟨raw, cut, readPlain, readCoded⟩ := parseLine_print readAt lines offset
  rw [cut, parseLines, ReadsAgain, List.any_cons, List.find?_cons]
  cases here : line.isCoded with
  | true =>
    obtain ⟨e, failed, kind, number⟩ := readCoded here
    rw [failed]
    refine ⟨by simp, fun first found => ?_⟩
    obtain rfl : line = first := Option.some.inj found
    exact ⟨e, rfl, kind, number⟩
  | false =>
    obtain ⟨line', read, same⟩ := readPlain here
    obtain ⟨plain, coded⟩ := others (offset + byteLength raw)
    have opcode : line'.opcode = line.opcode := congrArg (·.opcode) same
    simp only [read, opcode, Bool.false_or]
    split
    · next finish =>
      cases last finish
      exact ⟨fun _ => ⟨[line'], rfl, by simp [same]⟩, by simp⟩
    · refine ⟨fun clean => ?_, fun first found => ?_⟩
      · obtain ⟨lines', read', same'⟩ := plain clean
        rw [read']
        exact ⟨line' :: lines', rfl, by simp [same, same']⟩
      · obtain ⟨e, failed, place⟩ := coded first found
        rw [failed]
        exact ⟨e, rfl, place⟩

/-- Printed lines are read again, up to the first one with a code point. -/
theorem parseLines_print (listed : Listed source index lines) (offset : Nat) :
    ReadsAgain lines (parseLines (index + 1) offset (rawLines (print lines).toList)) := by
  have nil : ∀ number offset, ReadsAgain []
      (parseLines number offset (rawLines (print []).toList)) := by
    intro number offset
    rw [show (print []).toList = [] from rfl, rawLines, parseLines]
    exact readsAgain_nil
  induction listed generalizing offset with
  | nil index => exact nil _ offset
  | finish readAt finish => exact readsAgain_cons readAt offset (fun _ => rfl) (nil _)
  | cons readAt going listed ih =>
    exact readsAgain_cons readAt offset (fun finish => absurd finish going) ih

end Source

/-- A source that is read can be printed and read again. The lines are the same but for their
places, and so are the image, the labels and the errors of the passes. The reader refuses a string
with a character printed by its code point, in the first line that has one, and nothing else. -/
theorem print_reads_back {source : String} {lines : List Line}
    (read : Source.parse source = .ok lines) :
    (lines.any (·.isCoded) = false → ∃ lines', Source.parse (Source.print lines) = .ok lines' ∧
      lines'.map Line.unplaced = lines.map Line.unplaced ∧
      ∀ m : Machine, (m.assemble lines').2 = (m.assemble lines).2 ∧
        (m.assemble lines').1.mapError LayoutError.unplaced =
          (m.assemble lines).1.mapError LayoutError.unplaced) ∧
    ∀ line, lines.find? (·.isCoded) = some line → ∃ e,
      Source.parse (Source.print lines) = .error e ∧ e.kind = .malformedString ∧
        e.line = line.number := by
  have listed := Source.parse_outcome source
  rw [read] at listed
  obtain ⟨plain, coded⟩ := Source.parseLines_print listed 0
  refine ⟨fun clean => ?_, coded⟩
  obtain ⟨lines', read', same⟩ := plain clean
  exact ⟨lines', read', same, fun m => m.assemble_congr same⟩

/-- Two lines, of which the first has a string with all kinds of characters in it. -/
def mixedSource : String := "msg .stringz \"a;,\\\"\\t\u00e9\" ;c\r\n\tadd r1 R2,#-1"

/-- The second line has a bell in its string. -/
def bellSource : String := ".END2\n.STRINGZ \"\\a\""

theorem sources_read_back :
    (∃ lines lines', Source.parse mixedSource = .ok lines ∧ lines.length = 2 ∧
      Source.parse (Source.print lines) = .ok lines' ∧
      lines'.map Line.unplaced = lines.map Line.unplaced) ∧
    ∃ lines e, Source.parse bellSource = .ok lines ∧ lines.length = 2 ∧
      Source.parse (Source.print lines) = .error e ∧ e.kind = .malformedString ∧ e.line = 2 := by
  constructor
  · have read : Source.parse mixedSource = .ok
        [{ label := some "MSG", opcode := some ".STRINGZ", operands := [.string "a;,\"\t\u00e9"],
            comment := some "c", number := 1, span := ⟨0, 27⟩ },
          { opcode := some "ADD", operands := [.register ⟨1⟩, .register ⟨2⟩, .number 0xFFFF],
            number := 2, span := ⟨29, 14⟩ }] := by decide +kernel
    obtain ⟨lines', read', same, -⟩ := (print_reads_back read).1 (by decide +kernel)
    exact ⟨_, lines', read, rfl, read', same⟩
  · have read : Source.parse bellSource = .ok
        [{ label := some ".END2", number := 1, span := ⟨0, 5⟩ },
          { opcode := some ".STRINGZ", operands := [.string "\x07"], number := 2,
            span := ⟨6, 13⟩ }] := by decide +kernel
    obtain ⟨e, refused, kind, number⟩ := (print_reads_back read).2
      { opcode := some ".STRINGZ", operands := [.string "\x07"], number := 2, span := ⟨6, 13⟩ }
      (by decide +kernel)
    exact ⟨_, e, read, rfl, refused, kind, number⟩

end LC3
