import LC3.Proofs.LiteralGrammar

/-!
# What reading a line comes to

A line is read by moving on over whole characters. Each function of the reader either yields what
it read, and what it read is read from its printed text again, or it points at a stretch of the
text in front of it. Up to that stretch there is nothing wrong: a line that ends before it is read.
-/

namespace LC3

/-- What holds of the value or of the error, whichever there is. -/
def EitherWay {ε α : Type} (good : α → Prop) (bad : ε → Prop) : Except ε α → Prop
  | .ok a => good a
  | .error e => bad e

/-- Whether the operand is a string with a character that quoted text has by its code point. -/
def Operand.isCoded : Operand → Bool
  | .string s => s.toList.any Quoted.isCoded
  | _ => false

/-- The printed text of the operand is read as the operand, if it is without code points. -/
def Operand.ReadsBack (x : Operand) : Prop := x.isCoded = false → ReadsAs x.text.toList x

/-- The text that an error marks, with the text of the line after it. A token that is wrong is
marked from its first to its last character, a missing one by the comma in its place, and a string
by the text from its opening quote on. -/
def ParseErrorKind.Marks (kind : ParseErrorKind) (found after : List Char) : Prop :=
  match kind with
  | .expectedLabelOrOpcode => found = [',']
  | .expectedOpcode name => found = if name.toList = [] then [','] else name.toList
  | .expectedOperand => found = [',']
  | .malformedString => after = [] ∧ ∃ text, found = '"' :: text ∧ StringLiteral.body text = none
  | .malformedNumber literal => found = literal.toList

theorem Operand.readsBack_number (w : Word) : (Operand.number w).ReadsBack := by
  intro _
  rw [Operand.text, String.toList_ofList]
  exact (LiteralMode.Literal.hexadecimal (NumberToken.isHexadecimal_upper w)).readsAs

theorem Stops.of_prefix {text rest : List Char} (stops : Stops rest) (begins : text <+: rest) :
    Stops text := by
  intro c first
  obtain ⟨others, rfl⟩ := begins
  cases text with
  | nil => cases first
  | cons d text => exact stops c first

namespace Cursor

variable {α : Type} {c next : Cursor} {rest : List Char} {e : LineError}

/-- The second place is in the same line, and not before the first. -/
structure Precedes (c next : Cursor) : Prop where
  suffix : next.rest <:+ c.rest
  total : next.offset + byteLength next.rest = c.offset + byteLength c.rest

theorem Precedes.trans {last : Cursor} (first : c.Precedes next) (second : next.Precedes last) :
    c.Precedes last :=
  ⟨second.suffix.trans first.suffix, second.total.trans first.total⟩

theorem Precedes.offset_eq {passed : List Char} (precedes : c.Precedes next)
    (shape : c.rest = passed ++ next.rest) : next.offset = c.offset + byteLength passed := by
  have total := precedes.total
  rw [shape, byteLength_append] at total
  omega

theorem precedes_moveTo (suffix : rest <:+ c.rest) : c.Precedes (c.moveTo rest) := by
  refine ⟨suffix, ?_⟩
  obtain ⟨passed, whole⟩ := suffix
  have shorter : byteLength rest ≤ byteLength c.rest := by
    rw [← whole, byteLength_append]
    exact Nat.le_add_left _ _
  simp only [moveTo]
  omega

theorem precedes_skipBlanks (c : Cursor) : c.Precedes c.skipBlanks :=
  precedes_moveTo (List.dropWhile_suffix _)

theorem precedes_token (c : Cursor) : c.Precedes c.token.2 :=
  precedes_moveTo (List.dropWhile_suffix _)

theorem precedes_skipSeparator (c : Cursor) : c.Precedes c.skipSeparator := by
  refine c.precedes_skipBlanks.trans ?_
  rw [skipSeparator]
  unfold skipComma
  split
  · next rest comma => exact precedes_moveTo ⟨[','], comma.symm⟩
  · exact ⟨List.suffix_rfl, rfl⟩

/-- Something other than a blank or a comment is next. -/
def Ready (c : Cursor) : Prop := ∃ d others, c.rest = d :: others ∧ isBlank d = false ∧ d ≠ ';'

theorem ready_skipBlanks (going : c.skipBlanks.ending? = none) : c.skipBlanks.Ready := by
  rw [ending?] at going
  split at going
  · cases going
  · cases going
  · next nonempty noComment =>
    obtain ⟨d, others, shape⟩ := List.exists_cons_of_ne_nil nonempty
    refine ⟨d, others, shape, ?_, ?_⟩
    · have first := List.head?_dropWhile_not isBlank c.rest
      rw [skipBlanks, moveTo_rest] at shape
      rwa [shape] at first
    · rintro rfl
      exact noComment others shape

theorem Ready.going (ready : c.Ready) : c.ending? = none := by
  obtain ⟨d, others, shape, -, comment⟩ := ready
  rw [ending?, shape]
  split
  · next empty => cases empty
  · next same =>
    cases same
    exact absurd rfl comment
  · rfl

/-- Whether a place is ready depends on the next character alone. -/
theorem Ready.of_cons {d : Char} {passed others rest : List Char} (ready : c.Ready)
    (ahead : c.rest = d :: passed ++ rest) (ahead' : next.rest = d :: passed ++ others) :
    next.Ready := by
  obtain ⟨d', _, shape, inside⟩ := ready
  cases ahead.symm.trans shape
  exact ⟨d, _, ahead', inside⟩

theorem Ready.comma_of_token (ready : c.Ready) (empty : c.token.1 = []) :
    ∃ after, c.rest = [','] ++ after := by
  obtain ⟨d, others, shape, blank, comment⟩ := ready
  have ends : endsToken d = true := by
    cases inside : endsToken d with
    | true => rfl
    | false =>
      rw [token, shape, List.takeWhile_cons_of_pos (by rw [inside]; rfl)] at empty
      cases empty
  have comma : d = ',' := by simpa [endsToken, blank, comment] using ends
  exact ⟨others, by rw [shape, comma]; rfl⟩

/-- Where there is a token, it is next. -/
theorem rest_eq_token (c : Cursor) : c.rest = c.token.1 ++ c.token.2.rest :=
  List.takeWhile_append_dropWhile.symm

theorem isToken_token (nonempty : c.token.1 ≠ []) : IsToken c.token.1 := by
  refine ⟨nonempty, fun d present => ?_⟩
  simpa using List.all_eq_true.mp List.all_takeWhile d present

theorem token_ne_nil_of_operand {x : Operand} (unquoted : ∀ text, c.rest ≠ '"' :: text)
    (read : c.operand = .ok (x, next)) : c.token.1 ≠ [] := by
  intro empty
  rw [operand] at read
  split at read
  · next text quoted => exact unquoted text quoted
  · simp [empty] at read

theorem head?_token_ne_quote (unquoted : ∀ text, c.rest ≠ '"' :: text) :
    c.token.1.head? ≠ some '"' := by
  intro first
  obtain ⟨others, shape⟩ := List.head?_eq_some_iff.mp first
  exact unquoted _ (c.rest_eq_token.trans (by rw [shape, List.cons_append]))

theorem stops_token (c : Cursor) : Stops c.token.2.rest := by
  intro d first
  have last := List.head?_dropWhile_not (!endsToken ·) c.rest
  rw [token, moveTo_rest] at first
  rw [Option.mem_def.mp first] at last
  simpa using last

/-- Blanks are skipped in the same way if the line ends somewhere behind them. -/
theorem skipBlanks_of_prefix (c : Cursor) : ∃ passed, c.rest = passed ++ c.skipBlanks.rest ∧
    ∀ (c' : Cursor) (text : List Char), text <+: c.skipBlanks.rest → c'.rest = passed ++ text →
      c'.skipBlanks.rest = text := by
  refine ⟨c.rest.takeWhile isBlank, List.takeWhile_append_dropWhile.symm, ?_⟩
  rintro c' text ⟨others, whole⟩ ahead
  rw [skipBlanks, moveTo_rest, ahead,
    List.dropWhile_append_of_pos (List.all_eq_true.mp List.all_takeWhile)]
  cases text with
  | nil => rfl
  | cons d text =>
    have first := List.head?_dropWhile_not isBlank c.rest
    rw [← moveTo_rest c (c.rest.dropWhile isBlank), ← skipBlanks, ← whole] at first
    exact List.dropWhile_cons_of_neg (by simpa using first)

theorem skipSeparator_of_prefix (c : Cursor) : ∃ passed, c.rest = passed ++ c.skipSeparator.rest ∧
    ∀ (c' : Cursor) (text : List Char), text <+: c.skipSeparator.rest → c'.rest = passed ++ text →
      c'.skipSeparator.rest = text := by
  obtain ⟨blanks, shape, skip⟩ := c.skipBlanks_of_prefix
  by_cases comma : ∃ rest, c.skipBlanks.rest = ',' :: rest
  · obtain ⟨rest, comma⟩ := comma
    have skipped : c.skipSeparator.rest = rest := by
      simp only [skipSeparator, skipComma, comma, moveTo_rest]
    refine ⟨blanks ++ [','], by simp [shape, comma, skipped], fun c' text begins ahead => ?_⟩
    have skipped' := skip c' (',' :: text)
      (by rw [comma]; exact List.cons_prefix_cons.mpr ⟨rfl, skipped ▸ begins⟩)
      (by simpa using ahead)
    simp only [skipSeparator, skipComma, skipped', moveTo_rest]
  · have same : ∀ {c : Cursor}, (¬∃ rest, c.skipBlanks.rest = ',' :: rest) →
        c.skipSeparator.rest = c.skipBlanks.rest := by
      intro c comma
      rw [skipSeparator, skipComma]
      split
      · next rest shape => exact absurd ⟨rest, shape⟩ comma
      · rfl
    rw [same comma]
    refine ⟨blanks, shape, fun c' text begins ahead => ?_⟩
    have skipped := skip c' text begins ahead
    rw [← skipped]
    apply same
    rintro ⟨rest, shape⟩
    obtain ⟨others, whole⟩ := begins
    exact comma ⟨rest ++ others, by rw [← whole, ← skipped, shape]; rfl⟩

/-- An operand is read in the same way if the line ends somewhere behind it. -/
theorem operand_of_prefix {x : Operand} (read : c.operand = .ok (x, next)) :
    ∃ d passed, c.rest = d :: passed ++ next.rest ∧
      ∀ (c' : Cursor) (text : List Char), text <+: next.rest → c'.rest = d :: passed ++ text →
        c'.operand = .ok (x, c'.moveTo text) := by
  rw [operand] at read
  split at read
  · next text quoted =>
    split at read
    · next cs after closed =>
      cases read
      obtain ⟨passed, rfl, read⟩ := StringLiteral.prefix_of_body closed
      refine ⟨'"', passed, quoted, fun c' text _ ahead => ?_⟩
      rw [List.cons_append] at ahead
      rw [operand_of_quote ahead, read]
    · cases read
  · next unquoted =>
    have nonempty : c.token.1 ≠ [] := by
      intro empty
      simp [empty] at read
    obtain ⟨d, passed, shape⟩ := List.exists_cons_of_ne_nil nonempty
    have after : next = c.token.2 := by grind
    refine ⟨d, passed, by rw [← shape, after]; exact c.rest_eq_token, ?_⟩
    intro c' text begins ahead
    have token' := token_eq (isToken_token nonempty) (c.stops_token.of_prefix (after ▸ begins))
      (shape ▸ ahead)
    rw [operand]
    split
    · next text' quoted' =>
      cases ahead.symm.trans quoted'
      exact absurd (c.rest_eq_token.trans (by rw [shape]; rfl)) (unquoted _)
    · simp only [token']
      grind

def MarksHere (c : Cursor) (e : LineError) : Prop :=
  ∃ found after, c.rest = found ++ after ∧ e.span = ⟨c.offset, byteLength found⟩ ∧
    e.kind.Marks found after

/-- The error is about a stretch of the text that follows, and what is before it is read without an
error if the line ends there. -/
def PointsAt (read : Cursor → Except LineError α) (c : Cursor) (e : LineError) : Prop :=
  ∃ passed found after, c.rest = passed ++ (found ++ after) ∧
    e.span = ⟨c.offset + byteLength passed, byteLength found⟩ ∧ e.kind.Marks found after ∧
    ∀ c' : Cursor, c'.rest = passed → ∃ a, read c' = .ok a

/-- What is wrong behind a text that was passed is wrong behind all that was passed. -/
theorem PointsAt.of_passed {β : Type} {read : Cursor → Except LineError α}
    {readNext : Cursor → Except LineError β} (passed : List Char)
    (points : next.PointsAt readNext e) (precedes : c.Precedes next)
    (shape : c.rest = passed ++ next.rest)
    (reads : ∀ (c' : Cursor) (text : List Char), text <+: next.rest → c'.rest = passed ++ text →
      ∃ next' : Cursor, next'.rest = text ∧
        ((∃ b, readNext next' = .ok b) → ∃ a, read c' = .ok a)) : c.PointsAt read e := by
  obtain ⟨passed', found, after, ahead, span, marks, readsNext⟩ := points
  refine ⟨passed ++ passed', found, after, ?_, ?_, marks, fun c' cut => ?_⟩
  · rw [shape, ahead, List.append_assoc]
  · rw [span, precedes.offset_eq shape, byteLength_append, Nat.add_assoc]
  · obtain ⟨next', cut', reads⟩ := reads c' passed' ⟨found ++ after, ahead.symm⟩ cut
    exact reads (readsNext next' cut')

/-- Where only blanks are in front of the marked text, a line that ends there is read. -/
theorem pointsAt_of_marksHere {read : Cursor → Except LineError α}
    (marksHere : c.skipBlanks.MarksHere e)
    (reads : ∀ c' : Cursor, c'.skipBlanks.ending? = some none → ∃ a, read c' = .ok a) :
    c.PointsAt read e := by
  obtain ⟨found, after, ahead, span, marks⟩ := marksHere
  obtain ⟨blanks, shape, skip⟩ := c.skipBlanks_of_prefix
  refine ⟨blanks, found, after, ahead ▸ shape, ?_, marks, fun c' cut => reads c' ?_⟩
  · rw [span, c.precedes_skipBlanks.offset_eq shape]
  · rw [ending?, skip c' [] List.nil_prefix (by rw [cut, List.append_nil])]

/-- One operand is read, or something is wrong where it should be. -/
theorem operand_outcome (ready : c.Ready) :
    EitherWay (fun p => p.1.ReadsBack ∧ c.Precedes p.2) c.MarksHere c.operand := by
  rw [operand]
  split
  · next text quoted =>
    split
    · next cs after closed =>
      obtain ⟨passed, rfl, -⟩ := StringLiteral.prefix_of_body closed
      exact ⟨Quoted.readsAs_quote, precedes_moveTo ⟨'"' :: passed, quoted.symm⟩⟩
    · next unclosed =>
      exact ⟨c.rest, [], (List.append_nil _).symm, rfl, rfl, text, quoted, unclosed⟩
  · next unquoted =>
    dsimp only
    split
    · next empty =>
      obtain ⟨after, ahead⟩ := ready.comma_of_token (List.isEmpty_iff.mp empty)
      exact ⟨[','], after, ahead, rfl, rfl⟩
    · next nonempty =>
      have isToken : IsToken c.token.1 := isToken_token (by simpa using nonempty)
      split
      · next r named => exact ⟨fun _ => r.readFrom_name.readsAs, c.precedes_token⟩
      · next unnamed =>
        split
        · next w number => exact ⟨Operand.readsBack_number w, c.precedes_token⟩
        · exact ⟨_, _, c.rest_eq_token, rfl, String.toList_ofList.symm⟩
        · next name =>
          exact ⟨fun _ => (isName_foldCase isToken (head?_token_ne_quote unquoted) unnamed
            name).readsAs, c.precedes_token⟩

theorem suffix_of_ending? {comment : Option String} (ended : c.ending? = some comment) :
    ∀ text ∈ comment, text.toList <:+ c.rest := by
  intro text present
  rw [ending?] at ended
  split at ended
  · cases ended
    cases present
  · next cs shape =>
    cases ended
    cases present
    rw [shape, String.toList_ofList]
    exact List.suffix_cons ';' cs
  · cases ended

/-- The operands up to the end of the line are read, or something is wrong with one of them. -/
theorem operands_outcome (c : Cursor) :
    EitherWay (fun p => (∀ x ∈ p.1, x.ReadsBack) ∧ ∀ text ∈ p.2, text.toList <:+ c.rest)
      (c.PointsAt operands) c.operands := by
  fun_induction operands c with
  | case1 c comment ended =>
    exact ⟨by simp, fun text present =>
      (suffix_of_ending? ended text present).trans c.precedes_skipBlanks.suffix⟩
  | case2 c going e failed =>
    have outcome := operand_outcome (ready_skipBlanks going)
    rw [failed] at outcome
    exact pointsAt_of_marksHere outcome fun c' ended => ⟨_, operands_of_ending? ended⟩
  | case3 c going x next read _ e failed ih =>
    have outcome := operand_outcome (ready_skipBlanks going)
    rw [read] at outcome
    rw [failed] at ih
    have passed := c.precedes_skipBlanks.trans (outcome.2.trans next.precedes_skipSeparator)
    obtain ⟨blanks, shape₁, skip⟩ := c.skipBlanks_of_prefix
    obtain ⟨d, others, shape₂, readAgain⟩ := operand_of_prefix read
    obtain ⟨separator, shape₃, skipAgain⟩ := next.skipSeparator_of_prefix
    refine ih.of_passed (blanks ++ (d :: others ++ separator)) passed
      (by simp [shape₁, shape₂, shape₃]) fun c' text begins cut => ?_
    have begins₃ : separator ++ text <+: next.rest :=
      shape₃ ▸ (List.prefix_append_right_inj separator).mpr begins
    have begins₂ : d :: others ++ (separator ++ text) <+: c.skipBlanks.rest :=
      shape₂ ▸ (List.prefix_append_right_inj (d :: others)).mpr begins₃
    have skipped := skip c' _ begins₂ (by simp [cut])
    have going' := ((ready_skipBlanks going).of_cons shape₂ skipped).going
    have read' := readAgain _ _ begins₃ skipped
    refine ⟨_, skipAgain (c'.skipBlanks.moveTo (separator ++ text)) text begins rfl, ?_⟩
    rintro ⟨p, later⟩
    exact ⟨_, by rw [operands_of_operand going' read', later]; rfl⟩
  | case4 c going x next read _ xs comment others ih =>
    have outcome := operand_outcome (ready_skipBlanks going)
    rw [read] at outcome
    rw [others] at ih
    have passed := c.precedes_skipBlanks.trans (outcome.2.trans next.precedes_skipSeparator)
    exact ⟨List.forall_mem_cons.mpr ⟨outcome.1, ih.1⟩, fun text present =>
      (ih.2 text present).trans passed.suffix⟩

/-- What a line may say when it was read from here. -/
structure Yields (c : Cursor) (s : Statement) : Prop where
  label : ∀ name ∈ s.label, IsLabel name
  opcode : ∀ k ∈ s.opcode, Keyword.isKeyword k = true
  operands : ∀ x ∈ s.operands, x.ReadsBack
  bare : s.opcode = none → s.operands = []
  comment : ∀ text ∈ s.comment, text.toList <:+ c.rest

theorem Precedes.yields {s : Statement} (precedes : c.Precedes next) (yields : next.Yields s) :
    c.Yields s :=
  { yields with comment := fun text present =>
      (yields.comment text present).trans precedes.suffix }

theorem yields_of_ending? {label comment : Option String} (isLabel : ∀ name ∈ label, IsLabel name)
    (ended : c.skipBlanks.ending? = some comment) : c.Yields { label, comment } :=
  c.precedes_skipBlanks.yields {
    label := isLabel
    opcode := nofun
    operands := nofun
    bare := fun _ => rfl
    comment := suffix_of_ending? ended }

theorem operation_outcome {label : Option String} {k : String}
    (isLabel : ∀ name ∈ label, IsLabel name) (known : Keyword.isKeyword k = true) :
    EitherWay c.Yields (c.PointsAt (·.operation label k)) (c.operation label k) := by
  have outcome := c.operands_outcome
  rw [operation]
  split
  · next e failed =>
    rw [failed] at outcome
    refine outcome.of_passed [] ⟨List.suffix_rfl, rfl⟩ rfl fun c' text _ cut =>
      ⟨c', cut, ?_⟩
    rintro ⟨p, read⟩
    exact ⟨_, by rw [operation, read]⟩
  · next operands comment read =>
    rw [read] at outcome
    exact {
      label := isLabel
      opcode := fun _ same => Option.mem_some.mp same ▸ known
      operands := outcome.1
      bare := nofun
      comment := outcome.2 }

/-- What follows the first token of a line or the token behind a label is read as `after` reads it,
also if the line ends in it. -/
theorem outcome_of_token {read : Cursor → Except LineError Statement}
    (after : Cursor → Except LineError Statement)
    (nonempty : c.skipBlanks.token.1 ≠ [])
    (read_eq : ∀ c' : Cursor, c'.skipBlanks.ending? = none →
      c'.skipBlanks.token.1 = c.skipBlanks.token.1 → read c' = after c'.skipBlanks.token.2)
    (going : c.skipBlanks.ending? = none)
    (outcome : EitherWay c.skipBlanks.token.2.Yields (c.skipBlanks.token.2.PointsAt after)
      (after c.skipBlanks.token.2)) :
    EitherWay c.Yields (c.PointsAt read) (read c) := by
  have passed := c.precedes_skipBlanks.trans c.skipBlanks.precedes_token
  rw [read_eq c going rfl]
  cases result : after c.skipBlanks.token.2 with
  | ok s =>
    rw [result] at outcome
    exact passed.yields outcome
  | error e =>
    rw [result] at outcome
    obtain ⟨blanks, shape, skip⟩ := c.skipBlanks_of_prefix
    have shape' := c.skipBlanks.rest_eq_token
    refine PointsAt.of_passed (blanks ++ c.skipBlanks.token.1) outcome passed
      (by rw [List.append_assoc, ← shape']; exact shape) fun c' text begins cut => ?_
    have begins' : c.skipBlanks.token.1 ++ text <+: c.skipBlanks.rest :=
      shape' ▸ (List.prefix_append_right_inj _).mpr begins
    have isToken := isToken_token nonempty
    have skipped := skip c' _ begins' (by rw [cut, List.append_assoc])
    have token' := token_eq isToken (c.skipBlanks.stops_token.of_prefix begins) skipped
    refine ⟨c'.skipBlanks.token.2, by rw [token']; rfl, fun reads => ?_⟩
    rwa [read_eq c' (skipBlanks_of_token isToken skipped).2 (by rw [token'])]

theorem afterLabel_outcome {label : String} (isLabel : IsLabel label) :
    EitherWay c.Yields (c.PointsAt (·.afterLabel label)) (c.afterLabel label) := by
  have isLabel' : ∀ name ∈ some label, IsLabel name := fun _ same =>
    Option.mem_some.mp same ▸ isLabel
  cases ended : c.skipBlanks.ending? with
  | some comment =>
    rw [afterLabel, ended]
    exact yields_of_ending? isLabel' ended
  | none =>
    by_cases known : Keyword.isKeyword (foldCase c.skipBlanks.token.1) = true
    · refine outcome_of_token (·.operation (some label) (foldCase c.skipBlanks.token.1))
        ?_ ?_ ended (operation_outcome isLabel' known)
      · intro empty
        rw [empty] at known
        cases known
      · intro c' going same
        simp only [afterLabel, going, same, known, if_true]
    · have failed : c.afterLabel label =
          .error ⟨.expectedOpcode (String.ofList c.skipBlanks.token.1),
            ⟨c.skipBlanks.offset, max 1 (byteLength c.skipBlanks.token.1)⟩⟩ := by
        simp only [afterLabel, ended, if_neg known]
      rw [failed]
      refine pointsAt_of_marksHere ?_ fun c' ended' => ⟨_, by rw [afterLabel, ended']⟩
      by_cases empty : c.skipBlanks.token.1 = []
      · obtain ⟨after, ahead⟩ := (ready_skipBlanks ended).comma_of_token empty
        exact ⟨[','], after, ahead, by rw [empty]; rfl, by simp [ParseErrorKind.Marks, empty]⟩
      · have wide : max 1 (byteLength c.skipBlanks.token.1) = byteLength c.skipBlanks.token.1 := by
          obtain ⟨d, others, shape⟩ := List.exists_cons_of_ne_nil empty
          rw [shape, byteLength_cons]
          have := d.utf8Size_pos
          omega
        exact ⟨_, _, c.skipBlanks.rest_eq_token, by rw [wide],
          by simp [ParseErrorKind.Marks, empty]⟩

/-- A whole line is read, or something in it is wrong. -/
theorem statement_outcome (c : Cursor) :
    EitherWay c.Yields (c.PointsAt statement) c.statement := by
  cases ended : c.skipBlanks.ending? with
  | some comment =>
    rw [statement, ended]
    exact yields_of_ending? (by simp) ended
  | none =>
    by_cases empty : c.skipBlanks.token.1 = []
    · have failed : c.statement = .error ⟨.expectedLabelOrOpcode, ⟨c.skipBlanks.offset, 1⟩⟩ := by
        simp only [statement, ended, empty, List.isEmpty_nil, if_true]
      obtain ⟨after, ahead⟩ := (ready_skipBlanks ended).comma_of_token empty
      rw [failed]
      exact pointsAt_of_marksHere ⟨[','], after, ahead, rfl, rfl⟩
        fun c' ended' => ⟨_, by rw [statement, ended']⟩
    · have nonempty : c.skipBlanks.token.1.isEmpty = false := List.isEmpty_eq_false_iff.mpr empty
      by_cases known : Keyword.isKeyword (foldCase c.skipBlanks.token.1) = true
      · refine outcome_of_token (·.operation none (foldCase c.skipBlanks.token.1))
          empty ?_ ended (operation_outcome (by simp) known)
        intro c' going same
        simp only [statement, going, same, nonempty, known, Bool.false_eq_true, if_false, if_true]
      · refine outcome_of_token (·.afterLabel (foldCase c.skipBlanks.token.1))
          empty ?_ ended (afterLabel_outcome (isLabel_foldCase (isToken_token empty) known))
        intro c' going same
        simp only [statement, going, same, nonempty, if_neg known, Bool.false_eq_true, if_false]

end Cursor

end LC3
