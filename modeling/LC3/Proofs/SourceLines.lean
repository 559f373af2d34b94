import LC3.Proofs.ReaderOutcomes

/-!
# The lines of a source

A source is cut into lines that end in a line feed, in a carriage return and a line feed, or with
the source. Each line that is read has the number and the place of its text and is what the text
says, and an error points into the text of the line that it names.
-/

namespace LC3

namespace Source

/-- What ends a line, and what may follow: only the last line can do without a line feed, and then
there is something on it. -/
inductive Ends (text : List Char) : List Char → List Char → Prop
  | feed (after : List Char) (noReturn : text.getLast? ≠ some '\r') : Ends text ['\n'] after
  | returnFeed (after : List Char) : Ends text ['\r', '\n'] after
  | lastReturn : Ends text ['\r'] []
  | last (nonempty : text ≠ []) (noReturn : text.getLast? ≠ some '\r') : Ends text [] []

/-- The line with this index, which counts from zero, has this text, and `before` is all that
precedes it. -/
structure LineAt (source : List Char) (index : Nat) (before text : List Char) : Prop where
  count : before.count '\n' = index
  starts : before = [] ∨ before.getLast? = some '\n'
  no_feed : '\n' ∉ text
  ends : ∃ terminator after, Ends text terminator after ∧
    source = before ++ (text ++ (terminator ++ after))

structure ReadAt (source : List Char) (index : Nat) (line : Line) : Prop where
  number : line.number = index + 1
  text : ∃ before text, LineAt source index before text ∧
    line.span = ⟨byteLength before, byteLength text⟩ ∧
    (Cursor.start text).statement = .ok line.toStatement

/-- The error marks a stretch in the text of its line, up to which there is nothing wrong with the
line. -/
def PointsInto (source : List Char) (e : ParseError) : Prop :=
  ∃ before left found right, 1 ≤ e.line ∧
    LineAt source (e.line - 1) before (left ++ (found ++ right)) ∧
    e.span = ⟨byteLength before + byteLength left, byteLength found⟩ ∧
    e.column = byteLength left + 1 ∧ e.kind.Marks found right ∧
    ∃ s, (Cursor.start left).statement = .ok s

/-- Lines that were read one after another, from the text with this index on. Nothing is read after
the end of the program. -/
inductive Listed (source : List Char) : Nat → List Line → Prop
  | nil (index : Nat) : Listed source index []
  | finish {index : Nat} {line : Line} (readAt : ReadAt source index line)
      (finish : line.opcode = some Keyword.finish) : Listed source index [line]
  | cons {index : Nat} {line : Line} {lines : List Line} (readAt : ReadAt source index line)
      (going : line.opcode ≠ some Keyword.finish) (listed : Listed source (index + 1) lines) :
      Listed source index (line :: lines)

/-- A property of texts holds of all if adding a line in front keeps it. -/
theorem lines_induction {P : List Char → Prop} (nil : P [])
    (last : ∀ line, line ≠ [] → '\n' ∉ line → P line)
    (feed : ∀ line rest, '\n' ∉ line → P rest → P (line ++ '\n' :: rest)) (text : List Char) :
    P text := by
  induction hn : text.length using Nat.strongRecOn generalizing text with
  | ind n ih =>
    by_cases present : '\n' ∈ text
    · obtain ⟨line, rest, rfl, clean⟩ := List.eq_append_cons_of_mem present
      rw [List.length_append, List.length_cons] at hn
      exact feed line rest clean (ih rest.length (by omega) rest rfl)
    · by_cases empty : text = []
      · exact empty ▸ nil
      · exact last text empty present

theorem stripLast_cases (c : Char) (text : List Char) :
    text = stripLast c text ++ [c] ∨ text.getLast? ≠ some c ∧ stripLast c text = text := by
  by_cases ends : text.getLast? = some c
  · obtain ⟨init, rfl⟩ := List.getLast?_eq_some_iff.mp ends
    rw [stripLast_concat]
    exact .inl rfl
  · rw [stripLast, if_neg ends]
    exact .inr ⟨ends, rfl⟩

variable {line before text source : List Char} {index : Nat}

theorem not_mem_stripLast (clean : '\n' ∉ line) : '\n' ∉ stripLast '\r' line := by
  rw [stripLast]
  split
  · exact fun present => clean ((List.dropLast_sublist line).mem present)
  · exact clean

theorem ends_of_feed (line after : List Char) : ∃ terminator,
    Ends (stripLast '\r' line) terminator after ∧
      line ++ '\n' :: after = stripLast '\r' line ++ (terminator ++ after) := by
  rcases stripLast_cases '\r' line with shape | ⟨noReturn, same⟩
  · refine ⟨['\r', '\n'], .returnFeed after, ?_⟩
    conv => lhs; rw [shape]
    simp
  · rw [same]
    exact ⟨['\n'], .feed after noReturn, rfl⟩

theorem ends_of_last (nonempty : line ≠ []) : ∃ terminator,
    Ends (stripLast '\r' line) terminator [] ∧
      line = stripLast '\r' line ++ (terminator ++ []) := by
  rcases stripLast_cases '\r' line with shape | ⟨noReturn, same⟩
  · exact ⟨['\r'], .lastReturn, shape⟩
  · rw [same]
    exact ⟨[], .last nonempty noReturn, by simp⟩

/-- One line is read at its place, or is in error there. -/
theorem parseLine_outcome {raw : List Char} (lineAt : LineAt source index before text)
    (cut : withoutTerminator raw = text) :
    EitherWay (ReadAt source index) (PointsInto source)
      (parseLine (index + 1) (byteLength before) raw) := by
  have outcome := (Cursor.start text).statement_outcome
  simp only [parseLine, cut]
  split
  · next e failed =>
    rw [failed] at outcome
    obtain ⟨left, found, right, ahead, span, marks, reads⟩ := outcome
    have ahead' : text = left ++ (found ++ right) := ahead
    refine ⟨before, left, found, right, Nat.succ_pos index, ahead' ▸ lineAt, ?_, ?_, marks,
      reads _ rfl⟩
    · simp [LineError.inSource, span, Cursor.start]
    · simp [LineError.inSource, span, Cursor.start]
  · next s read => exact ⟨rfl, before, text, lineAt, rfl, read⟩

theorem parseLines_cons_outcome {raw : List Char} {raws : List (List Char)}
    (lineAt : LineAt source index before text) (cut : withoutTerminator raw = text)
    (others : EitherWay (Listed source (index + 1)) (PointsInto source)
      (parseLines (index + 1 + 1) (byteLength before + byteLength raw) raws)) :
    EitherWay (Listed source index) (PointsInto source)
      (parseLines (index + 1) (byteLength before) (raw :: raws)) := by
  have first := parseLine_outcome lineAt cut
  rw [parseLines]
  split
  · next e failed =>
    rw [failed] at first
    exact first
  · next line read =>
    rw [read] at first
    split
    · next finish => exact .finish first finish
    · next going =>
      split
      · next e failed =>
        rw [failed] at others
        exact others
      · next lines read' =>
        rw [read'] at others
        exact .cons first going others

/-- The lines that follow are read one after another, up to the first one in error. -/
theorem parseLines_outcome (before source rest : List Char) (whole : source = before ++ rest)
    (starts : before = [] ∨ before.getLast? = some '\n') :
    EitherWay (Listed source (before.count '\n')) (PointsInto source)
      (parseLines (before.count '\n' + 1) (byteLength before) (rawLines rest)) := by
  induction rest using lines_induction generalizing before with
  | nil =>
    rw [rawLines, parseLines]
    exact .nil _
  | last line nonempty clean =>
    obtain ⟨terminator, ends, shape⟩ := ends_of_last nonempty
    have lineAt : LineAt source _ before (stripLast '\r' line) :=
      ⟨rfl, starts, not_mem_stripLast clean, terminator, [], ends, shape ▸ whole⟩
    rw [rawLines_last nonempty clean]
    exact parseLines_cons_outcome lineAt (withoutTerminator_last clean) (.nil _)
  | feed line rest clean ih =>
    obtain ⟨terminator, ends, shape⟩ := ends_of_feed line rest
    have lineAt : LineAt source _ before (stripLast '\r' line) :=
      ⟨rfl, starts, not_mem_stripLast clean, terminator, rest, ends, shape ▸ whole⟩
    rw [rawLines_cons clean]
    apply parseLines_cons_outcome lineAt (withoutTerminator_feed line)
    have counted : (before ++ (line ++ ['\n'])).count '\n' = before.count '\n' + 1 := by
      simp [List.count_eq_zero.mpr clean]
    rw [← byteLength_append, ← counted]
    exact ih _ (by simp [whole]) (.inr (by simp))

/-- A source is read line by line, or one of its lines is in error. -/
theorem parse_outcome (source : String) :
    EitherWay (Listed source.toList 0) (PointsInto source.toList) (parse source) :=
  parseLines_outcome [] source.toList source.toList rfl (.inl rfl)

end Source

end LC3
