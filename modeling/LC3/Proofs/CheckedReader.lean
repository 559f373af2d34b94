import LC3.Proofs.CheckedText

/-!
# The reader stays inside its line

The reader is given a second time over byte offsets, with a check in each step that could go wrong.
No check ever fails, so that the checked reader comes to the same result for every line and for
every source.
-/

namespace LC3

namespace Checked

section

variable (text : List Char)

/-- Passes a character that is accepted. -/
def passRound? (accepts : Char → Bool) (offset : Nat) (_ : Unit) : Option (Round Unit Nat) := do
  match ← first? text offset with
  | none => some (.done offset)
  | some c =>
    if accepts c then some (.again (advance text offset c.utf8Size) ()) else some (.done offset)

/-- The characters up to the first that is not accepted, and the offset there. -/
def takeWhile? (accepts : Char → Bool) (offset : Nat) : Option (List Char × Nat) := do
  let stop ← loop? text (passRound? text accepts) offset ()
  let passed ← between? text offset stop
  some (passed, stop)

/-- The offset of the next character that is no blank. -/
def skipBlanks? (offset : Nat) : Option Nat := do
  let (_, stop) ← takeWhile? text isBlank offset
  some stop

/-- The character of a code that is given as text. -/
def code? : List Char → Option Char
  | [high, low] => StringLiteral.coded? high low
  | _ => none

/-- The character that an escape stands for, and the offset where its reading ends. -/
def escape? (offset : Nat) : Option (Option Char × Nat) := do
  match ← bump? text offset with
  | (none, next) => some (none, next)
  | (some letter, next) =>
    if letter = 'x' then
      let rest ← from? text next
      match (upTo? rest 2).bind code? with
      | some c => some (some c, advance text next 2)
      | none => some (none, next)
    else some (StringLiteral.escaped? letter, next)

/-- Reads a character of a literal, after the characters that have been read. -/
def literalRound? (offset : Nat) (read : List Char) :
    Option (Round (List Char) (Option (List Char) × Nat)) := do
  match ← bump? text offset with
  | (none, next) => some (.done (none, next))
  | (some c, next) =>
    if c = '"' then some (.done (some read, next))
    else if c = '\\' then
      match ← escape? text next with
      | (none, next) => some (.done (none, next))
      | (some c, next) => some (.again next (read ++ [c]))
    else some (.again next (read ++ [c]))

/-- The characters of a literal and the offset where its reading ends. -/
def literal? (offset : Nat) : Option (Option (List Char) × Nat) := do
  match ← bump? text offset with
  | (some '"', next) => loop? text (literalRound? text) next []
  | (_, next) => some (none, next)

def operand? (offset : Nat) : Option (Except LineError (Operand × Nat)) := do
  if (← first? text offset) = some '"' then
    match ← literal? text offset with
    | (some cs, next) => some (.ok (.string (String.ofList cs), next))
    | (none, next) =>
      let rest ← from? text next
      let passed ← distance? offset next
      some (.error ⟨.malformedString, ⟨offset, byteLength rest + passed⟩⟩)
  else
    let (token, next) ← takeWhile? text (!endsToken ·) offset
    if token.isEmpty then some (.error ⟨.expectedOperand, ⟨offset, 1⟩⟩)
    else
      match Register.ofName? token with
      | some r => some (.ok (.register r, next))
      | none =>
        match NumberToken.classify (token.map Char.toUpper) with
        | .number w => some (.ok (.number w, next))
        | .malformed =>
          some (.error ⟨.malformedNumber (String.ofList token), ⟨offset, byteLength token⟩⟩)
        | .name => some (.ok (.label (Cursor.foldCase token), next))

/-- What the next token of a line has to be. -/
inductive Expected
  | labelOrOpcode
  | opcode
  | operand

/-- Reads the next token of a line, after the part of the statement that has been read. -/
def tokenRound? (column : Nat) :
    Expected × Statement → Option (Round (Expected × Statement) (Except LineError Statement))
  | (.labelOrOpcode, s) => do
    let (token, next) ← takeWhile? text (!endsToken ·) column
    if token.isEmpty then some (.done (.error ⟨.expectedLabelOrOpcode, ⟨column, 1⟩⟩))
    else if Keyword.isKeyword (Cursor.foldCase token) then
      some (.again next (.operand, { s with opcode := some (Cursor.foldCase token) }))
    else some (.again next (.opcode, { s with label := some (Cursor.foldCase token) }))
  | (.opcode, s) => do
    let (token, next) ← takeWhile? text (!endsToken ·) column
    if Keyword.isKeyword (Cursor.foldCase token) then
      some (.again next (.operand, { s with opcode := some (Cursor.foldCase token) }))
    else
      some (.done (.error ⟨.expectedOpcode (String.ofList token),
        ⟨column, max 1 (byteLength token)⟩⟩))
  | (.operand, s) => do
    match ← operand? text column with
    | .error e => some (.done (.error e))
    | .ok (x, next) =>
      let separator ← skipBlanks? text next
      if (← first? text separator) = some ',' then
        let (_, next) ← bump? text separator
        some (.again next (.operand, { s with operands := s.operands ++ [x] }))
      else some (.again separator (.operand, { s with operands := s.operands ++ [x] }))

/-- Ends a line where there is no more text or a comment, and else reads the next token. -/
def lineRound? (offset : Nat) (state : Expected × Statement) :
    Option (Round (Expected × Statement) (Except LineError Statement)) := do
  let column ← skipBlanks? text offset
  match ← first? text column with
  | none => some (.done (.ok state.2))
  | some c =>
    if c = ';' then
      let (_, next) ← bump? text column
      let comment ← from? text next
      some (.done (.ok { state.2 with comment := some (String.ofList comment) }))
    else tokenRound? text column state

def statement? : Option (Except LineError Statement) :=
  loop? text (lineRound? text) 0 (.labelOrOpcode, {})

end

def parseLine? (number offset : Nat) (raw : List Char) : Option (Except ParseError Line) := do
  let text := Source.withoutTerminator raw
  match ← statement? text with
  | .error e => some (.error (e.inSource number offset))
  | .ok s => some (.ok { toStatement := s, number, span := ⟨offset, byteLength text⟩ })

def parseLines? (number offset : Nat) :
    List (List Char) → Option (Except ParseError (List Line))
  | [] => some (.ok [])
  | raw :: rest => do
    match ← parseLine? number offset raw with
    | .error e => some (.error e)
    | .ok line =>
      if line.opcode = some Keyword.finish then some (.ok [line])
      else
        match ← parseLines? (number + 1) (offset + byteLength raw) rest with
        | .error e => some (.error e)
        | .ok lines => some (.ok (line :: lines))

def parse? (source : String) : Option (Except ParseError (List Line)) :=
  parseLines? 1 0 (Source.rawLines source.toList)

variable {text : List Char} {c next : Cursor}

/-- Passing characters stops at the first that is not accepted. -/
theorem runs_pass {accepts : Char → Bool} (inside : Inside text c) (inside' : Inside text next)
    (stops : next.rest = c.rest.dropWhile accepts) :
    Runs text (passRound? text accepts) c.offset () next.offset := by
  generalize remaining : c.rest = rest at stops
  induction rest generalizing c with
  | nil =>
    cases inside.eq_of_rest inside' (remaining.trans stops.symm)
    refine .done inside.isPlace ?_
    rw [passRound?, inside.first?_eq, remaining]
    rfl
  | cons d rest ih =>
    cases accepted : accepts d with
    | true =>
      have tail := precedes_tail remaining
      have goesOn : passRound? text accepts c.offset () =
          some (.again (c.moveTo rest).offset ()) := by
        rw [passRound?, inside.first?_eq, remaining,
          ← inside.advance_eq [d] remaining]
        simp [accepted]
      have forward := offset_lt_of_length_lt tail (by simp [Cursor.moveTo_rest, remaining])
      rw [List.dropWhile_cons_of_pos accepted] at stops
      exact .again inside.isPlace goesOn forward (ih (inside.of_precedes tail) rfl stops)
    | false =>
      have refused : ¬accepts d = true := by rw [accepted]; decide
      rw [List.dropWhile_cons_of_neg refused] at stops
      cases inside.eq_of_rest inside' (remaining.trans stops.symm)
      refine .done inside.isPlace ?_
      rw [passRound?, inside.first?_eq, remaining]
      simp [accepted]

theorem takeWhile?_eq (accepts : Char → Bool) (inside : Inside text c) :
    takeWhile? text accepts c.offset = some (c.rest.takeWhile accepts,
      (c.moveTo (c.rest.dropWhile accepts)).offset) := by
  have precedes : c.Precedes (c.moveTo (c.rest.dropWhile accepts)) :=
    Cursor.precedes_moveTo (List.dropWhile_suffix _)
  have shape : c.rest = c.rest.takeWhile accepts ++ c.rest.dropWhile accepts :=
    List.takeWhile_append_dropWhile.symm
  have stop := (runs_pass inside (inside.of_precedes precedes) rfl).loop?_eq
  have passed := inside.between?_eq precedes shape
  rw [takeWhile?, stop]
  simp only [Option.bind_eq_bind, Option.bind_some, passed]

theorem skipBlanks?_eq (inside : Inside text c) :
    skipBlanks? text c.offset = some c.skipBlanks.offset := by
  rw [skipBlanks?, takeWhile?_eq isBlank inside]
  rfl

theorem token?_eq (inside : Inside text c) :
    takeWhile? text (!endsToken ·) c.offset = some (c.token.1, c.token.2.offset) :=
  takeWhile?_eq _ inside

theorem utf8Size_of_hexValue? {d : Char} {v : Nat} (value : StringLiteral.hexValue? d = some v) :
    d.utf8Size = 1 := by
  have small : d.val.toNat < 128 := StringLiteral.toNat_lt_of_hexValue? value
  exact Char.utf8Size_eq_one_iff.mpr (UInt32.le_iff_toNat_le.mpr (Nat.le_of_lt_succ small))

/-- The characters of a code have one byte each. -/
theorem byteLength_of_coded? {high low d : Char}
    (known : StringLiteral.coded? high low = some d) : byteLength [high, low] = 2 := by
  have sizes : high.utf8Size = 1 ∧ low.utf8Size = 1 := by
    unfold StringLiteral.coded? at known
    split at known
    · next first second => exact ⟨utf8Size_of_hexValue? first, utf8Size_of_hexValue? second⟩
    · next second =>
      split at known
      · next plus => exact ⟨by rw [plus]; rfl, utf8Size_of_hexValue? second⟩
      · cases known
    · cases known
  rw [byteLength_cons, byteLength_cons, sizes.1, sizes.2]
  rfl

/-- The next two bytes are a code if they are those of two characters that are one. -/
theorem code?_ahead_iff {rest : List Char} {d : Char} :
    (upTo? rest 2).bind code? = some d ↔ ∃ high low after, rest = high :: low :: after ∧
      StringLiteral.coded? high low = some d := by
  constructor
  · intro coded
    obtain ⟨digits, ahead, known⟩ := Option.bind_eq_some_iff.mp coded
    obtain ⟨⟨digits, after⟩, cut, rfl⟩ := Option.map_eq_some_iff.mp ahead
    obtain ⟨rfl, -⟩ := cut?_eq_some_iff.mp cut
    dsimp only at known
    match digits with
    | [high, low] => exact ⟨high, low, after, rfl, known⟩
    | [] | [_] | _ :: _ :: _ :: _ => cases known
  · rintro ⟨high, low, after, rfl, known⟩
    have cut : cut? (high :: low :: after) 2 = some ([high, low], after) :=
      cut?_eq_some_iff.mpr ⟨rfl, byteLength_of_coded? known⟩
    rw [upTo?, cut]
    exact known

/-- Where the next two bytes are no code, nothing is read. -/
theorem body_of_uncoded {rest : List Char} (uncoded : (upTo? rest 2).bind code? = none) :
    StringLiteral.body ('\\' :: 'x' :: rest) = none := by
  match rest with
  | [] =>
    rw [StringLiteral.body.eq_def]
    rfl
  | [high] =>
    rw [StringLiteral.body.eq_def]
    rfl
  | high :: low :: after =>
    rw [StringLiteral.body.eq_def]
    cases known : StringLiteral.coded? high low with
    | none => simp [known]
    | some d =>
      have coded := code?_ahead_iff.mpr ⟨high, low, after, rfl, known⟩
      cases uncoded.symm.trans coded

open StringLiteral (Writes body)

/-- An escape is read as its character, or nothing is. -/
theorem escape?_cases (inside : Inside text c) : ∃ next, c.Precedes next ∧
    ((escape? text c.offset = some (none, next.offset) ∧ body ('\\' :: c.rest) = none) ∨
      ∃ d written, escape? text c.offset = some (some d, next.offset) ∧
        c.rest = written ++ next.rest ∧ Writes ('\\' :: written) d) := by
  cases remaining : c.rest with
  | nil =>
    refine ⟨c, ⟨List.suffix_rfl, rfl⟩, .inl ⟨?_, ?_⟩⟩
    · rw [escape?, inside.bump?_nil remaining]
      rfl
    · rw [StringLiteral.body.eq_def]
      rfl
  | cons letter rest =>
    have tail := precedes_tail remaining
    have inside' := inside.of_precedes tail
    rw [escape?, inside.bump?_cons remaining]
    simp only [Option.bind_eq_bind, Option.bind_some]
    by_cases hexadecimal : letter = 'x'
    · subst hexadecimal
      simp only [if_true, inside'.from?_eq, Option.bind_some]
      rw [Cursor.moveTo_rest]
      cases coded : (upTo? rest 2).bind code? with
      | none => exact ⟨_, tail, .inl ⟨rfl, body_of_uncoded coded⟩⟩
      | some d =>
        obtain ⟨high, low, after, rfl, known⟩ := code?_ahead_iff.mp coded
        have later : (c.moveTo (high :: low :: after)).Precedes
            ((c.moveTo (high :: low :: after)).moveTo after) :=
          Cursor.precedes_moveTo ⟨[high, low], rfl⟩
        -- The two bytes that are passed are the two characters of the code.
        have moved := inside'.advance_eq [high, low] rfl
        rw [byteLength_of_coded? known] at moved
        refine ⟨_, tail.trans later, .inr ⟨d, ['x', high, low], ?_, rfl,
          StringLiteral.writes_code known⟩⟩
        rw [moved]
    · rw [if_neg hexadecimal]
      cases escaped : StringLiteral.escaped? letter with
      | none =>
        refine ⟨_, tail, .inl ⟨rfl, ?_⟩⟩
        rw [StringLiteral.body_escape hexadecimal, escaped]
        rfl
      | some d =>
        exact ⟨_, tail, .inr ⟨d, [letter], rfl, rfl, StringLiteral.writes_escape escaped⟩⟩

/-- A round of a literal closes it, or reads a character, or nothing is read. -/
theorem literalRound?_cases (inside : Inside text c) (read : List Char) :
    ∃ next, c.Precedes next ∧
      ((literalRound? text c.offset read = some (.done (none, next.offset)) ∧
          body c.rest = none) ∨
        (literalRound? text c.offset read = some (.done (some read, next.offset)) ∧
          body c.rest = some ([], next.rest)) ∨
        ∃ d written, literalRound? text c.offset read =
            some (.again next.offset (read ++ [d])) ∧
          c.rest = written ++ next.rest ∧ written ≠ [] ∧ Writes written d) := by
  cases remaining : c.rest with
  | nil =>
    refine ⟨c, ⟨List.suffix_rfl, rfl⟩, .inl ⟨?_, ?_⟩⟩
    · rw [literalRound?, inside.bump?_nil remaining]
      rfl
    · rw [StringLiteral.body.eq_def]
  | cons d rest =>
    have tail := precedes_tail remaining
    rw [literalRound?, inside.bump?_cons remaining]
    simp only [Option.bind_eq_bind, Option.bind_some]
    by_cases quote : d = '"'
    · subst quote
      exact ⟨_, tail, .inr (.inl ⟨if_pos rfl, StringLiteral.body_quote rest⟩)⟩
    rw [if_neg quote]
    by_cases backslash : d = '\\'
    · subst backslash
      rw [if_pos rfl]
      obtain ⟨next, later, ⟨failed, unread⟩ | ⟨e, written, escaped, shape, writes⟩⟩ :=
        escape?_cases (inside.of_precedes tail)
      · refine ⟨next, tail.trans later, .inl ⟨?_, unread⟩⟩
        rw [failed]
        rfl
      · refine ⟨next, tail.trans later, .inr (.inr ⟨e, '\\' :: written, ?_, ?_,
          List.cons_ne_nil _ _, writes⟩)⟩
        · rw [escaped]
          rfl
        · rw [List.cons_append, ← shape]
          rfl
    · rw [if_neg backslash]
      exact ⟨_, tail, .inr (.inr ⟨d, [d], rfl, rfl, List.cons_ne_nil _ _,
        StringLiteral.writes_self quote backslash⟩)⟩

/-- The rounds of a literal come to what it is read as, and stop behind it if it is closed. -/
theorem runs_literal (inside : Inside text c) (read : List Char) : ∃ next, c.Precedes next ∧
    Runs text (literalRound? text) c.offset read
      ((body c.rest).map fun p => read ++ p.1, next.offset) ∧
    ∀ p ∈ body c.rest, next.rest = p.2 := by
  -- A round that goes on leaves less text, and the rest of the literal is read from there.
  induction size : c.rest.length using Nat.strongRecOn generalizing c read with
  | ind n ih =>
    obtain ⟨next, precedes, ⟨stops, unread⟩ | ⟨stops, closed⟩ | ⟨d, written, goesOn, shape,
      nonempty, writes⟩⟩ := literalRound?_cases inside read
    · refine ⟨next, precedes, ?_, ?_⟩
      · rw [unread]
        exact .done inside.isPlace stops
      · rw [unread]
        exact nofun
    · refine ⟨next, precedes, ?_, ?_⟩
      · rw [closed, Option.map_some, List.append_nil]
        exact .done inside.isPlace stops
      · rw [closed]
        rintro p ⟨⟩
        rfl
    · have shorter : next.rest.length < c.rest.length := by
        have positive := List.length_pos_iff.mpr nonempty
        rw [shape, List.length_append]
        omega
      obtain ⟨last, later, others, stop⟩ := ih next.rest.length (size ▸ shorter)
        (inside.of_precedes precedes) (read ++ [d]) rfl
      refine ⟨last, precedes.trans later, ?_, ?_⟩
      · rw [shape, writes, Option.map_map]
        have same : (body next.rest).map (fun p => read ++ [d] ++ p.1) =
            (body next.rest).map ((fun p => read ++ p.1) ∘ fun p => (d :: p.1, p.2)) := by
          simp [Function.comp_def]
        exact .again inside.isPlace goesOn (offset_lt_of_length_lt precedes shorter)
          (same ▸ others)
      · rw [shape, writes]
        intro p known
        obtain ⟨q, found, rfl⟩ := Option.map_eq_some_iff.mp known
        exact stop q found

theorem literal?_eq {rest : List Char} (inside : Inside text c) (quoted : c.rest = '"' :: rest) :
    ∃ next, c.Precedes next ∧
      literal? text c.offset = some ((body rest).map fun p => p.1, next.offset) ∧
      ∀ p ∈ body rest, next.rest = p.2 := by
  have tail := precedes_tail quoted
  obtain ⟨next, later, runs, stop⟩ := runs_literal (inside.of_precedes tail) []
  refine ⟨next, tail.trans later, ?_, stop⟩
  rw [literal?, inside.bump?_cons quoted]
  exact runs.loop?_eq

/-- The checked reader reads the same operands, and ends at the same offset. -/
theorem operand?_eq (inside : Inside text c) :
    operand? text c.offset = some (c.operand.map fun p => (p.1, p.2.offset)) := by
  rw [Cursor.operand]
  split
  · next rest quoted =>
    obtain ⟨next, precedes, read, stop⟩ := literal?_eq inside quoted
    have inside' := inside.of_precedes precedes
    rw [operand?, inside.first?_eq]
    simp only [Option.bind_eq_bind, Option.bind_some, quoted, List.head?_cons, if_true, read]
    cases known : body rest with
    | none =>
      obtain ⟨passed, distance, length⟩ := distance?_eq precedes
      simp only [Option.map_none, inside'.from?_eq, Option.bind_some, distance, length, quoted]
      rfl
    | some p =>
      have moved : c.Precedes (c.moveTo p.2) := Cursor.precedes_moveTo
        (stop p known ▸ precedes.suffix)
      rw [inside'.eq_of_rest (inside.of_precedes moved) (stop p known)]
      rfl
  · next unquoted =>
    have other : ¬c.rest.head? = some '"' := by
      intro first
      obtain ⟨rest, quoted⟩ := List.head?_eq_some_iff.mp first
      exact unquoted rest quoted
    rw [operand?, inside.first?_eq]
    simp only [Option.bind_eq_bind, Option.bind_some, if_neg other, token?_eq inside]
    cases c.token.1.isEmpty with
    | true => rfl
    | false =>
      cases Register.ofName? c.token.1 with
      | some r => rfl
      | none => cases NumberToken.classify (c.token.1.map Char.toUpper) <;> rfl

theorem precedes_of_operand {x : Operand} (going : c.skipBlanks.ending? = none)
    (read : c.skipBlanks.operand = .ok (x, next)) : c.Precedes next.skipSeparator := by
  have outcome := Cursor.operand_outcome (Cursor.ready_skipBlanks going)
  rw [read] at outcome
  exact c.precedes_skipBlanks.trans (outcome.2.trans next.precedes_skipSeparator)

/-- A line ends where it ends for the reader. -/
theorem lineRound?_of_ending {comment : Option String} {state : Expected × Statement}
    (inside : Inside text c) (ended : c.skipBlanks.ending? = some comment)
    (uncommented : state.2.comment = none) :
    lineRound? text c.offset state = some (.done (.ok { state.2 with comment })) := by
  have inside' := inside.of_precedes c.precedes_skipBlanks
  rw [lineRound?, skipBlanks?_eq inside]
  simp only [Option.bind_eq_bind, Option.bind_some]
  rw [inside'.first?_eq]
  rw [Cursor.ending?] at ended
  split at ended
  · next empty =>
    cases ended
    rw [empty, ← uncommented]
    rfl
  · next rest shape =>
    cases ended
    have later := inside'.of_precedes (precedes_tail shape)
    rw [shape]
    simp only [List.head?_cons, Option.bind_some, if_true, inside'.bump?_cons shape,
      later.from?_eq]
    rfl
  · cases ended

/-- Where a line goes on, the next token is read. -/
theorem lineRound?_of_going (state : Expected × Statement) (inside : Inside text c)
    (going : c.skipBlanks.ending? = none) :
    lineRound? text c.offset state = tokenRound? text c.skipBlanks.offset state := by
  have inside' := inside.of_precedes c.precedes_skipBlanks
  obtain ⟨d, others, shape, -, comment⟩ := Cursor.ready_skipBlanks going
  rw [lineRound?, skipBlanks?_eq inside]
  simp only [Option.bind_eq_bind, Option.bind_some]
  rw [inside'.first?_eq, shape]
  simp only [List.head?_cons, Option.bind_some, if_neg comment]

/-- Blanks and one comma behind an operand are passed. -/
theorem tokenRound?_operand (inside : Inside text c) (ready : c.Ready) (s : Statement) :
    tokenRound? text c.offset (.operand, s) = some (match c.operand with
      | .error e => .done (.error e)
      | .ok (x, next) =>
        .again next.skipSeparator.offset (.operand, { s with operands := s.operands ++ [x] })) := by
  rw [tokenRound?, operand?_eq inside]
  cases read : c.operand with
  | error e => rfl
  | ok p =>
    obtain ⟨x, next⟩ := p
    have outcome := Cursor.operand_outcome ready
    rw [read] at outcome
    have inside' := inside.of_precedes outcome.2
    have behind := inside'.of_precedes next.precedes_skipBlanks
    simp only [Except.map, Option.bind_eq_bind, Option.bind_some, skipBlanks?_eq inside',
      behind.first?_eq]
    rw [Cursor.skipSeparator, Cursor.skipComma]
    split
    · next comma =>
      obtain ⟨rest, shape⟩ := List.head?_eq_some_iff.mp comma
      simp only [shape, behind.bump?_cons shape, Option.bind_some]
    · next other =>
      split
      · next rest shape => exact absurd (List.head?_eq_some_iff.mpr ⟨rest, shape⟩) other
      · rfl

theorem lineRound?_operand (inside : Inside text c) (going : c.skipBlanks.ending? = none)
    (s : Statement) :
    lineRound? text c.offset (.operand, s) = some (match c.skipBlanks.operand with
      | .error e => .done (.error e)
      | .ok (x, next) =>
        .again next.skipSeparator.offset (.operand, { s with operands := s.operands ++ [x] })) := by
  rw [lineRound?_of_going _ inside going, tokenRound?_operand
    (inside.of_precedes c.precedes_skipBlanks) (Cursor.ready_skipBlanks going)]

/-- Behind an opcode, the rounds come to the operands that the reader reads. -/
theorem runs_operands (inside : Inside text c) {s : Statement} (uncommented : s.comment = none) :
    Runs text (lineRound? text) c.offset (.operand, s)
      (c.operands.map fun p => { s with operands := s.operands ++ p.1, comment := p.2 }) := by
  fun_induction Cursor.operands c generalizing s with
  | case1 c comment ended =>
    refine .done inside.isPlace ?_
    rw [lineRound?_of_ending inside ended uncommented]
    simp [Except.map]
  | case2 c going e failed =>
    refine .done inside.isPlace ?_
    rw [lineRound?_operand inside going, failed]
    rfl
  | case3 c going x next read shorter e failed ih =>
    have precedes := precedes_of_operand going read
    have others := ih (inside.of_precedes precedes)
      (s := { s with operands := s.operands ++ [x] }) uncommented
    rw [failed] at others
    refine .again inside.isPlace ?_ (offset_lt_of_length_lt precedes shorter) others
    rw [lineRound?_operand inside going, read]
  | case4 c going x next read shorter xs comment succeeded ih =>
    have precedes := precedes_of_operand going read
    have others := ih (inside.of_precedes precedes)
      (s := { s with operands := s.operands ++ [x] }) uncommented
    rw [succeeded] at others
    simp only [Except.map, List.append_assoc, List.singleton_append] at others
    refine .again inside.isPlace ?_ (offset_lt_of_length_lt precedes shorter) others
    rw [lineRound?_operand inside going, read]

theorem runs_operation (inside : Inside text c) (label : Option String) (k : String) :
    Runs text (lineRound? text) c.offset (.operand, { label, opcode := some k })
      (c.operation label k) := by
  have runs := runs_operands inside (s := { label, opcode := some k }) rfl
  have same : c.operation label k = c.operands.map fun p =>
      { label, opcode := some k, operands := [] ++ p.1, comment := p.2 } := by
    rw [Cursor.operation]
    cases c.operands <;> rfl
  exact same ▸ runs

/-- A token that is not empty is passed. -/
theorem offset_lt_token (nonempty : c.skipBlanks.token.1 ≠ []) :
    c.offset < c.skipBlanks.token.2.offset := by
  have positive := List.length_pos_iff.mpr nonempty
  have sum := c.skipBlanks.length_token_add
  have shorter := c.length_skipBlanks_le
  exact offset_lt_of_length_lt (c.precedes_skipBlanks.trans c.skipBlanks.precedes_token) (by omega)

theorem ne_nil_of_isKeyword {token : List Char}
    (known : Keyword.isKeyword (Cursor.foldCase token) = true) : token ≠ [] := by
  rintro rfl
  exact absurd known (by decide)

theorem runs_afterLabel (inside : Inside text c) (label : String) :
    Runs text (lineRound? text) c.offset (.opcode, { label := some label })
      (c.afterLabel label) := by
  have inside' := inside.of_precedes c.precedes_skipBlanks
  rw [Cursor.afterLabel]
  split
  · next comment ended => exact .done inside.isPlace (lineRound?_of_ending inside ended rfl)
  · next going =>
    have round := lineRound?_of_going (.opcode, { label := some label }) inside going
    rw [tokenRound?, token?_eq inside'] at round
    simp only [Option.bind_eq_bind, Option.bind_some] at round
    dsimp only
    split
    · next known =>
      rw [if_pos known] at round
      exact .again inside.isPlace round (offset_lt_token (ne_nil_of_isKeyword known))
        (runs_operation (inside'.of_precedes c.skipBlanks.precedes_token) (some label) _)
    · next unknown =>
      rw [if_neg unknown] at round
      exact .done inside.isPlace round

/-- The rounds of a line come to the statement that the reader reads. -/
theorem runs_statement (inside : Inside text c) :
    Runs text (lineRound? text) c.offset (.labelOrOpcode, {}) c.statement := by
  have inside' := inside.of_precedes c.precedes_skipBlanks
  have inside'' := inside'.of_precedes c.skipBlanks.precedes_token
  rw [Cursor.statement]
  split
  · next comment ended => exact .done inside.isPlace (lineRound?_of_ending inside ended rfl)
  · next going =>
    have round := lineRound?_of_going (.labelOrOpcode, {}) inside going
    rw [tokenRound?, token?_eq inside'] at round
    simp only [Option.bind_eq_bind, Option.bind_some] at round
    dsimp only
    split
    · next empty =>
      rw [if_pos empty] at round
      exact .done inside.isPlace round
    · next nonempty =>
      have forward := offset_lt_token (c := c) (by simpa using nonempty)
      rw [if_neg nonempty] at round
      split
      · next known =>
        rw [if_pos known] at round
        exact .again inside.isPlace round forward (runs_operation inside'' none _)
      · next unknown =>
        rw [if_neg unknown] at round
        exact .again inside.isPlace round forward (runs_afterLabel inside'' _)

theorem statement?_eq (text : List Char) :
    statement? text = some (Cursor.start text).statement :=
  (runs_statement (inside_start text)).loop?_eq

theorem parseLines?_eq (number offset : Nat) (raws : List (List Char)) :
    parseLines? number offset raws = some (Source.parseLines number offset raws) := by
  induction raws generalizing number offset with
  | nil => rfl
  | cons raw raws ih =>
    have line : parseLine? number offset raw = some (Source.parseLine number offset raw) := by
      rw [parseLine?, Source.parseLine, statement?_eq]
      cases (Cursor.start (Source.withoutTerminator raw)).statement <;> rfl
    rw [parseLines?, Source.parseLines, line]
    cases Source.parseLine number offset raw with
    | error e => rfl
    | ok line =>
      simp only [Option.bind_eq_bind, Option.bind_some, ih]
      split
      · rfl
      · cases Source.parseLines (number + 1) (offset + byteLength raw) raws <;> rfl

/-- No check of the checked reader fails, and it reads every source as the reader does. On any text,
the rounds of a line come to its statement, and the rounds of a literal to its characters: each
begins at a place in the text, and each that goes on has moved on. -/
theorem no_check_fails (source : String) :
    parse? source = some (Source.parse source) ∧
    ∀ text : List Char,
      (∀ offset, (from? text offset).isSome = true ↔ IsPlace text offset) ∧
      Runs text (lineRound? text) 0 (.labelOrOpcode, {}) (Cursor.start text).statement ∧
      ∀ passed read, ∃ stop,
        Runs (passed ++ text) (literalRound? (passed ++ text)) (byteLength passed) read
          ((StringLiteral.body text).map fun p => read ++ p.1, stop) := by
  refine ⟨parseLines?_eq 1 0 _, fun text => ⟨fun _ => isSome_from?_iff,
    runs_statement (inside_start text), fun passed read => ?_⟩⟩
  have inside : Inside (passed ++ text) ⟨byteLength passed, text⟩ := ⟨passed, rfl, rfl⟩
  obtain ⟨next, -, runs, -⟩ := runs_literal inside read
  exact ⟨next.offset, runs⟩

end Checked

end LC3
