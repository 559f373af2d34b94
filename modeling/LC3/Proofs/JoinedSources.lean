import LC3.Proofs.SourceLines
import Mathlib.Control.Monad.Basic

/-!
# Sources one behind the other

Lines are read one by one, and only the number and the place of a line depend on what precedes it. So
a source that is cut behind a line feed is read as its first part and then, unless that has an error or
the end of the program, as its second part with numbers and places moved on.
-/

namespace LC3

/-- The span with so many more bytes in front of it. -/
def Span.behind (s : Span) (bytes : Nat) : Span := { s with offset := s.offset + bytes }

/-- The line with so many more lines in front of it, of so many bytes. -/
def Line.behind (line : Line) (lines bytes : Nat) : Line :=
  { line with number := line.number + lines, span := line.span.behind bytes }

/-- The error with so many more lines in front of its line, of so many bytes. -/
def ParseError.behind (e : ParseError) (lines bytes : Nat) : ParseError :=
  { e with line := e.line + lines, span := e.span.behind bytes }

namespace Source

/-- Whether the last of the lines ends the program. -/
def isFinished (lines : List Line) : Bool :=
  lines.getLast?.any (·.opcode == some Keyword.finish)

theorem isFinished_singleton {line : Line} (finish : line.opcode = some Keyword.finish) :
    isFinished [line] = true := by
  rw [isFinished, List.getLast?_singleton, Option.any_some, finish, beq_self_eq_true]

theorem isFinished_cons {line : Line} (going : line.opcode ≠ some Keyword.finish)
    (lines : List Line) : isFinished (line :: lines) = isFinished lines := by
  cases lines with
  | nil => simp [isFinished, going]
  | cons next lines => rw [isFinished, List.getLast?_cons_cons, isFinished]

theorem parseLine_behind (number offset lines bytes : Nat) (raw : List Char) :
    parseLine (number + lines) (offset + bytes) raw =
      ((parseLine number offset raw).map (·.behind lines bytes)).mapError
        (·.behind lines bytes) := by
  simp only [parseLine]
  cases (Cursor.start (withoutTerminator raw)).statement with
  | error e =>
    have place : offset + bytes + e.span.offset = offset + e.span.offset + bytes := by omega
    simp only [LineError.inSource, place]
    rfl
  | ok s => rfl

/-- Numbers and places that begin later are later throughout. -/
theorem parseLines_behind (number offset lines bytes : Nat) (raws : List (List Char)) :
    parseLines (number + lines) (offset + bytes) raws =
      ((parseLines number offset raws).map (·.map (·.behind lines bytes))).mapError
        (·.behind lines bytes) := by
  induction raws generalizing number offset with
  | nil => rfl
  | cons raw raws ih =>
    have next := ih (number + 1) (offset + byteLength raw)
    rw [Nat.add_right_comm number, Nat.add_right_comm offset] at next
    rw [parseLines, parseLines, parseLine_behind, next]
    cases parseLine number offset raw with
    | error e => rfl
    | ok line =>
      have same : (line.behind lines bytes).opcode = line.opcode := rfl
      simp only [Except.map, Except.mapError, same]
      split
      · rfl
      · cases parseLines (number + 1) (offset + byteLength raw) raws <;> rfl

/-- Lines are read, and then those behind them, if there is no end and no error before. -/
theorem parseLines_append (number offset : Nat) (raws others : List (List Char)) :
    parseLines number offset (raws ++ others) =
      match parseLines number offset raws with
      | .error e => .error e
      | .ok lines =>
        if isFinished lines then .ok lines
        else (parseLines (number + raws.length) (offset + byteLength raws.flatten) others).map
          (lines ++ ·) := by
  induction raws generalizing number offset with
  | nil =>
    rw [List.nil_append, parseLines]
    simp only [isFinished, List.getLast?_nil, Option.any_none, Bool.false_eq_true, if_false,
      List.length_nil, List.flatten_nil, byteLength_nil, Nat.add_zero]
    cases parseLines number offset others <;> rfl
  | cons raw raws ih =>
    have counted : number + (raw :: raws).length = number + 1 + raws.length := by
      rw [List.length_cons]
      omega
    have measured : offset + byteLength (raw :: raws).flatten =
        offset + byteLength raw + byteLength raws.flatten := by
      rw [List.flatten_cons, byteLength_append, Nat.add_assoc]
    rw [List.cons_append, parseLines, parseLines, ih, counted, measured]
    cases parseLine number offset raw with
    | error e => rfl
    | ok line =>
      by_cases finish : line.opcode = some Keyword.finish
      · simp only [finish, if_true, isFinished_singleton]
      · simp only [finish, if_false]
        cases parseLines (number + 1) (offset + byteLength raw) raws with
        | error e => rfl
        | ok lines =>
          simp only [isFinished_cons finish]
          by_cases finished : isFinished lines = true
          · simp only [finished, if_true]
          · simp only [finished]
            cases parseLines (number + 1 + raws.length)
              (offset + byteLength raw + byteLength raws.flatten) others <;> rfl

/-- All lines are read if none ends the program. -/
theorem length_of_parseLines {number offset : Nat} {raws : List (List Char)} {lines : List Line}
    (read : parseLines number offset raws = .ok lines) (going : isFinished lines = false) :
    lines.length = raws.length := by
  induction raws generalizing number offset lines with
  | nil =>
    cases read
    rfl
  | cons raw raws ih =>
    rw [parseLines] at read
    split at read
    · cases read
    · next line first =>
      split at read
      · next finish =>
        cases read
        rw [isFinished_singleton finish] at going
        cases going
      · next going' =>
        split at read
        · cases read
        · next lines' others =>
          cases read
          rw [isFinished_cons going'] at going
          rw [List.length_cons, List.length_cons, ih others going]

/-- The text is empty or ends in a line feed. -/
def IsWhole (text : List Char) : Prop := text = [] ∨ text.getLast? = some '\n'

variable {a : List Char}

/-- A text of whole lines is cut into these, of which none reaches into the text behind. -/
theorem rawLines_append (whole : IsWhole a) (b : List Char) :
    rawLines (a ++ b) = rawLines a ++ rawLines b ∧ (rawLines a).length = a.count '\n' ∧
      (rawLines a).flatten = a := by
  induction a using lines_induction with
  | nil => simp [rawLines]
  | last line nonempty clean =>
    rcases whole with empty | ends
    · exact absurd empty nonempty
    · exact absurd (List.mem_of_getLast? ends) clean
  | feed line rest clean ih =>
    have whole' : IsWhole rest := by
      rcases whole with empty | ends
      · simp at empty
      · cases rest with
        | nil => exact .inl rfl
        | cons c rest => exact .inr (by simpa [List.getLast?_append] using ends)
    obtain ⟨cut, count, flat⟩ := ih whole'
    refine ⟨?_, ?_, ?_⟩
    · rw [List.append_assoc, List.cons_append, rawLines_cons clean, rawLines_cons clean, cut,
        List.cons_append]
    · rw [rawLines_cons clean, List.length_cons, count]
      simp [List.count_eq_zero.mpr clean]
    · rw [rawLines_cons clean, List.flatten_cons, flat]
      simp

/-- Behind a text of whole lines, a source is read as it is alone, with the numbers and the places
moved on by the lines and the bytes of that text. If the text has an error or the end of the program,
it is read as if nothing were behind it. -/
theorem parse_append (a b : String) (whole : IsWhole a.toList) :
    (∀ e, parse a = .error e → parse (a ++ b) = .error e) ∧
    ∀ lines, parse a = .ok lines →
      (isFinished lines = true → parse (a ++ b) = .ok lines) ∧
      (isFinished lines = false →
        lines.length = a.toList.count '\n' ∧
        (∀ later, parse b = .ok later → parse (a ++ b) =
          .ok (lines ++ later.map (·.behind (a.toList.count '\n') (byteLength a.toList)))) ∧
        ∀ e, parse b = .error e →
          parse (a ++ b) = .error (e.behind (a.toList.count '\n') (byteLength a.toList))) := by
  obtain ⟨cut, count, flat⟩ := rawLines_append whole b.toList
  have joined := parseLines_append 1 0 (rawLines a.toList) (rawLines b.toList)
  rw [← cut, ← String.toList_append, count, flat, parseLines_behind] at joined
  simp only [parse]
  refine ⟨fun e failed => ?_, fun lines read => ⟨fun finished => ?_, fun going => ?_⟩⟩
  · rw [joined, failed]
  · rw [joined, read]
    exact if_pos finished
  · have size := (length_of_parseLines read going).trans count
    simp only [read, going, Bool.false_eq_true, if_false] at joined
    refine ⟨size, fun later read' => ?_, fun e failed => ?_⟩
    · rw [joined, read']
      rfl
    · rw [joined, failed]
      rfl

/-- Two lines, with a character of two bytes and both line ends. -/
def frontSource : String := "\u00e9 HALT ; stop here\r\n\n"

/-- Behind the two lines, a third one is read with its number and its place moved on, and so is an
error. Behind the end of a program nothing is read. -/
theorem parse_behind_frontSource :
    IsWhole frontSource.toList ∧
    parse (frontSource ++ "PUTS") = .ok
      [{ label := some "\u00e9", opcode := some "HALT", comment := some " stop here", number := 1,
          span := ⟨0, 19⟩ },
        { number := 2, span := ⟨21, 0⟩ },
        { opcode := some "PUTS", number := 3, span := ⟨22, 4⟩ }] ∧
    parse (frontSource ++ "\nA B") = .error ⟨.expectedOpcode "B", 4, 3, ⟨25, 1⟩⟩ ∧
    parse (".END\n" ++ frontSource) = .ok
      [{ opcode := some ".END", number := 1, span := ⟨0, 4⟩ }] := by
  have whole : IsWhole frontSource.toList := .inr (by decide)
  have front : parse frontSource = .ok
      [{ label := some "\u00e9", opcode := some "HALT", comment := some " stop here", number := 1,
          span := ⟨0, 19⟩ },
        { number := 2, span := ⟨21, 0⟩ }] := by
    decide +kernel
  have line : parse "PUTS" = .ok [{ opcode := some "PUTS", number := 1, span := ⟨0, 4⟩ }] := by
    decide +kernel
  have wrong : parse "\nA B" = .error ⟨.expectedOpcode "B", 2, 3, ⟨3, 1⟩⟩ := by decide +kernel
  have finish : parse ".END\n" = .ok
      [{ opcode := some ".END", number := 1, span := ⟨0, 4⟩ }] := by
    decide +kernel
  obtain ⟨-, going⟩ := (parse_append frontSource "PUTS" whole).2 _ front
  obtain ⟨-, failing⟩ := (parse_append frontSource "\nA B" whole).2 _ front
  obtain ⟨finished, -⟩ := (parse_append ".END\n" frontSource (.inr (by decide))).2 _ finish
  exact ⟨whole, (going (by decide)).2.1 _ line, (failing (by decide)).2.2 _ wrong,
    finished (by decide)⟩

end Source

end LC3
