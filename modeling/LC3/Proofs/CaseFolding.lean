import LC3.Proofs.SourceLines
import LC3.Proofs.Unplaced
import Mathlib.Data.List.Forall2

/-!
# Sources in either case

The reader folds tokens to upper case before it looks at them, and looks for no letter elsewhere. Only
a string literal is read letter by letter. So reading a source without a quote commutes with putting
the source in upper case, up to the texts that are copied out of it: comments, and the tokens that an
error quotes. Two such sources that are the same in upper case say the same.
-/

namespace LC3

def upperCase (text : String) : String := Cursor.foldCase text.toList

def ParseErrorKind.upperCase : ParseErrorKind → ParseErrorKind
  | .expectedOpcode found => .expectedOpcode (LC3.upperCase found)
  | .malformedNumber literal => .malformedNumber (LC3.upperCase literal)
  | kind => kind

def LineError.upperCase (e : LineError) : LineError := { e with kind := e.kind.upperCase }

def ParseError.upperCase (e : ParseError) : ParseError := { e with kind := e.kind.upperCase }

def Statement.upperCase (s : Statement) : Statement :=
  { s with comment := s.comment.map LC3.upperCase }

def Line.upperCase (line : Line) : Line :=
  { line with toStatement := line.toStatement.upperCase }

def Cursor.upperCase (c : Cursor) : Cursor := { c with rest := c.rest.map Char.toUpper }

theorem upperCase_ofList (text : List Char) :
    upperCase (String.ofList text) = Cursor.foldCase text := by
  rw [upperCase, String.toList_ofList]

theorem Cursor.foldCase_map_toUpper (text : List Char) :
    foldCase (text.map Char.toUpper) = foldCase text := by
  rw [foldCase, foldCase, map_toUpper_toUpper]

theorem isBlank_toUpper (c : Char) : isBlank c.toUpper = isBlank c :=
  toUpper_induction (P := fun c d => isBlank d = isBlank c) (fun _ => rfl) (by decide) c

/-- The characters that the reader looks for one by one have no case. -/
theorem toUpper_eq_iff {mark : Char} (uncased : mark ∈ ['"', ';', ',', '\r', '\n']) (c : Char) :
    c.toUpper = mark ↔ c = mark := by
  have all : ['"', ';', ',', '\r', '\n'].all fun m => (c.toUpper == m) == (c == m) :=
    toUpper_induction
      (P := fun c d => ['"', ';', ',', '\r', '\n'].all fun m => (d == m) == (c == m))
      (by simp) (by decide) c
  have same : (c.toUpper == mark) = (c == mark) :=
    beq_iff_eq.mp (List.all_eq_true.mp all mark uncased)
  rw [← beq_iff_eq, same, beq_iff_eq]

theorem mem_map_toUpper_iff {mark : Char} (uncased : mark ∈ ['"', ';', ',', '\r', '\n'])
    (text : List Char) : mark ∈ text.map Char.toUpper ↔ mark ∈ text := by
  simp only [List.mem_map, toUpper_eq_iff uncased, exists_eq_right]

theorem byteLength_map_toUpper (text : List Char) :
    byteLength (text.map Char.toUpper) = byteLength text := by
  have size : ∀ c : Char, c.toUpper.utf8Size = c.utf8Size :=
    toUpper_induction (P := fun c d => d.utf8Size = c.utf8Size) (fun _ => rfl) (by decide)
  induction text with
  | nil => rfl
  | cons c text ih => rw [List.map_cons, byteLength_cons, byteLength_cons, size, ih]

/-- Nothing in the text looks like the start of a string literal. -/
def Unquoted (text : List Char) : Prop := '"' ∉ text

theorem Unquoted.of_suffix {text rest : List Char} (unquoted : Unquoted text)
    (suffix : rest <:+ text) : Unquoted rest := fun present => unquoted (suffix.mem present)

theorem Unquoted.ne_cons {text : List Char} (unquoted : Unquoted text) (others : List Char) :
    text ≠ '"' :: others := by
  rintro rfl
  exact unquoted List.mem_cons_self

namespace Cursor

variable {c : Cursor}

theorem moveTo_upperCase (c : Cursor) (rest : List Char) :
    c.upperCase.moveTo (rest.map Char.toUpper) = (c.moveTo rest).upperCase := by
  simp only [moveTo, upperCase, byteLength_map_toUpper]

theorem skipBlanks_upperCase (c : Cursor) : c.upperCase.skipBlanks = c.skipBlanks.upperCase := by
  have blank : isBlank ∘ Char.toUpper = isBlank := funext isBlank_toUpper
  rw [skipBlanks, skipBlanks, ← moveTo_upperCase, upperCase, List.dropWhile_map, blank]

theorem token_upperCase (c : Cursor) :
    c.upperCase.token = (c.token.1.map Char.toUpper, c.token.2.upperCase) := by
  have inside : (!endsToken ·) ∘ Char.toUpper = (!endsToken ·) :=
    funext fun d => congrArg not (endsToken_toUpper d)
  rw [token, token, ← moveTo_upperCase, upperCase, List.takeWhile_map, List.dropWhile_map, inside]

theorem skipComma_upperCase (c : Cursor) : c.upperCase.skipComma = c.skipComma.upperCase := by
  obtain ⟨offset, rest⟩ := c
  cases rest with
  | nil => rfl
  | cons d rest =>
    by_cases comma : d = ','
    · subst comma
      exact moveTo_upperCase ⟨offset, ',' :: rest⟩ rest
    · have comma' : d.toUpper ≠ ',' := mt (toUpper_eq_iff (by decide) d).mp comma
      simp only [skipComma, upperCase, List.map_cons]
      split
      · next same => exact absurd (List.cons.inj same).1 comma'
      · split
        · next same => exact absurd (List.cons.inj same).1 comma
        · rfl

theorem skipSeparator_upperCase (c : Cursor) :
    c.upperCase.skipSeparator = c.skipSeparator.upperCase := by
  rw [skipSeparator, skipSeparator, skipBlanks_upperCase, skipComma_upperCase]

theorem ending?_upperCase (c : Cursor) :
    c.upperCase.ending? = c.ending?.map (·.map LC3.upperCase) := by
  obtain ⟨offset, rest⟩ := c
  cases rest with
  | nil => rfl
  | cons d rest =>
    by_cases comment : d = ';'
    · subst comment
      exact congrArg (fun text => some (some text)) (upperCase_ofList rest).symm
    · have comment' : d.toUpper ≠ ';' := mt (toUpper_eq_iff (by decide) d).mp comment
      simp only [ending?, upperCase, List.map_cons]
      split
      · next empty => cases empty
      · next same => exact absurd (List.cons.inj same).1 comment'
      · split
        · next empty => cases empty
        · next same => exact absurd (List.cons.inj same).1 comment
        · rfl

theorem operand_of_token_eq_nil (unquoted : Unquoted c.rest) (empty : c.token.1 = []) :
    c.operand = .error ⟨.expectedOperand, ⟨c.offset, 1⟩⟩ := by
  rw [operand]
  split
  · next text quoted => exact absurd quoted (unquoted.ne_cons text)
  · simp only [empty, List.isEmpty_nil, if_true]

/-- An operand that is no string is the same in either case. -/
theorem operand_upperCase (unquoted : Unquoted c.rest) :
    c.upperCase.operand =
      (c.operand.map fun p => (p.1, p.2.upperCase)).mapError LineError.upperCase := by
  have unquoted' : Unquoted c.upperCase.rest := mt (mem_map_toUpper_iff (by decide) c.rest).mp unquoted
  have token' : c.upperCase.token.1 = c.token.1.map Char.toUpper := by rw [token_upperCase]
  have after' : c.upperCase.token.2.rest = c.token.2.rest.map Char.toUpper := by
    rw [token_upperCase]
    rfl
  by_cases empty : c.token.1 = []
  · have empty' : c.upperCase.token.1 = [] := by rw [token', empty, List.map_nil]
    rw [operand_of_token_eq_nil unquoted empty, operand_of_token_eq_nil unquoted' empty']
    rfl
  · have nonempty' : c.upperCase.token.1 ≠ [] := by simpa [token'] using empty
    rw [operand_of_token (isToken_token empty) (head?_token_ne_quote unquoted.ne_cons)
        c.stops_token c.rest_eq_token,
      operand_of_token (isToken_token nonempty') (head?_token_ne_quote unquoted'.ne_cons)
        c.upperCase.stops_token c.upperCase.rest_eq_token,
      token', after', Register.ofName?_map_toUpper, map_toUpper_toUpper, foldCase_map_toUpper,
      byteLength_map_toUpper, moveTo_upperCase]
    cases Register.ofName? c.token.1 with
    | some r => rfl
    | none =>
      cases NumberToken.classify (c.token.1.map Char.toUpper) with
      | number w => rfl
      | malformed =>
        simp only [Except.map, Except.mapError, LineError.upperCase, ParseErrorKind.upperCase,
          upperCase_ofList]
        rfl
      | name => rfl

theorem ending?_skipBlanks_upperCase (c : Cursor) :
    c.upperCase.skipBlanks.ending? = c.skipBlanks.ending?.map (·.map LC3.upperCase) := by
  rw [skipBlanks_upperCase, ending?_upperCase]

theorem operand_skipBlanks_upperCase (unquoted : Unquoted c.rest) :
    c.upperCase.skipBlanks.operand =
      (c.skipBlanks.operand.map fun p => (p.1, p.2.upperCase)).mapError LineError.upperCase := by
  rw [skipBlanks_upperCase]
  exact operand_upperCase (unquoted.of_suffix c.precedes_skipBlanks.suffix)

theorem operands_upperCase_of_operand {x : Operand} {next : Cursor} (unquoted : Unquoted c.rest)
    (going : c.skipBlanks.ending? = none) (read : c.skipBlanks.operand = .ok (x, next))
    (later : next.skipSeparator.upperCase.operands = (next.skipSeparator.operands.map fun p =>
      (p.1, p.2.map LC3.upperCase)).mapError LineError.upperCase) :
    c.upperCase.operands =
      (c.operands.map fun p => (p.1, p.2.map LC3.upperCase)).mapError LineError.upperCase := by
  have going' := c.ending?_skipBlanks_upperCase
  have read' := operand_skipBlanks_upperCase unquoted
  rw [going] at going'
  rw [read] at read'
  rw [operands_of_operand going read, operands_of_operand going' read', skipSeparator_upperCase,
    later]
  cases next.skipSeparator.operands <;> rfl

/-- The operands and the comment up to the end of a line. -/
theorem operands_upperCase (c : Cursor) (unquoted : Unquoted c.rest) :
    c.upperCase.operands =
      (c.operands.map fun p => (p.1, p.2.map LC3.upperCase)).mapError LineError.upperCase := by
  induction c using operands.induct with
  | case1 c comment ended =>
    have ended' := c.ending?_skipBlanks_upperCase
    rw [ended] at ended'
    rw [operands_of_ending? ended, operands_of_ending? ended']
    rfl
  | case2 c going e failed =>
    have going' := c.ending?_skipBlanks_upperCase
    have failed' := operand_skipBlanks_upperCase unquoted
    rw [going] at going'
    rw [failed] at failed'
    rw [operands_of_error going failed, operands_of_error going' failed']
    rfl
  | case3 c going x next read _ _ _ ih | case4 c going x next read _ _ _ _ ih =>
    have passed := operand_outcome (ready_skipBlanks going)
    rw [read] at passed
    exact operands_upperCase_of_operand unquoted going read (ih (unquoted.of_suffix
      (c.precedes_skipBlanks.trans (passed.2.trans next.precedes_skipSeparator)).suffix))

theorem operation_upperCase (unquoted : Unquoted c.rest) (label : Option String) (k : String) :
    c.upperCase.operation label k =
      ((c.operation label k).map Statement.upperCase).mapError LineError.upperCase := by
  rw [operation, operation, operands_upperCase c unquoted]
  cases c.operands <;> rfl

theorem afterLabel_upperCase (unquoted : Unquoted c.rest) (label : String) :
    c.upperCase.afterLabel label =
      ((c.afterLabel label).map Statement.upperCase).mapError LineError.upperCase := by
  rw [afterLabel, afterLabel, ending?_skipBlanks_upperCase]
  cases c.skipBlanks.ending? with
  | some comment => rfl
  | none =>
    have passed := c.precedes_skipBlanks.trans c.skipBlanks.precedes_token
    simp only [Option.map_none, skipBlanks_upperCase, token_upperCase, foldCase_map_toUpper,
      byteLength_map_toUpper]
    split
    · exact operation_upperCase (unquoted.of_suffix passed.suffix) (some label) _
    · simp only [Except.map, Except.mapError, LineError.upperCase, ParseErrorKind.upperCase,
        upperCase_ofList]
      rfl

theorem statement_upperCase (unquoted : Unquoted c.rest) :
    c.upperCase.statement =
      (c.statement.map Statement.upperCase).mapError LineError.upperCase := by
  rw [statement, statement, ending?_skipBlanks_upperCase]
  cases c.skipBlanks.ending? with
  | some comment => rfl
  | none =>
    have passed := c.precedes_skipBlanks.trans c.skipBlanks.precedes_token
    have unquoted' := unquoted.of_suffix passed.suffix
    simp only [Option.map_none, skipBlanks_upperCase, token_upperCase, foldCase_map_toUpper,
      List.isEmpty_map]
    split
    · rfl
    · split
      · exact operation_upperCase unquoted' none _
      · exact afterLabel_upperCase unquoted' _

end Cursor

namespace Source

theorem stripLast_map_toUpper {last : Char} (uncased : last ∈ ['"', ';', ',', '\r', '\n'])
    (text : List Char) :
    stripLast last (text.map Char.toUpper) = (stripLast last text).map Char.toUpper := by
  have ends : (text.map Char.toUpper).getLast? = some last ↔ text.getLast? = some last := by
    simp [List.getLast?_map, toUpper_eq_iff uncased]
  rw [stripLast, stripLast]
  simp only [ends]
  split
  · exact List.map_dropLast.symm
  · rfl

theorem withoutTerminator_map_toUpper (raw : List Char) :
    withoutTerminator (raw.map Char.toUpper) = (withoutTerminator raw).map Char.toUpper := by
  rw [withoutTerminator, withoutTerminator, stripLast_map_toUpper (by decide),
    stripLast_map_toUpper (by decide)]

theorem sublist_withoutTerminator (raw : List Char) : (withoutTerminator raw).Sublist raw := by
  have strip : ∀ c text, (stripLast c text).Sublist text := by
    intro c text
    rw [stripLast]
    split
    · exact List.dropLast_sublist text
    · exact List.Sublist.refl text
  exact (strip _ _).trans (strip _ _)

theorem parseLine_upperCase (number offset : Nat) {raw : List Char} (unquoted : Unquoted raw) :
    parseLine number offset (raw.map Char.toUpper) =
      ((parseLine number offset raw).map Line.upperCase).mapError ParseError.upperCase := by
  have read := Cursor.statement_upperCase (c := .start (withoutTerminator raw))
    fun present => unquoted ((sublist_withoutTerminator raw).mem present)
  have folded : (Cursor.start (withoutTerminator raw)).upperCase =
      .start ((withoutTerminator raw).map Char.toUpper) := rfl
  rw [folded] at read
  simp only [parseLine, withoutTerminator_map_toUpper, byteLength_map_toUpper, read]
  cases (Cursor.start (withoutTerminator raw)).statement <;> rfl

theorem parseLines_cons_upperCase {number offset : Nat} {raw : List Char}
    {raws raws' : List (List Char)} (unquoted : Unquoted raw)
    (others : parseLines (number + 1) (offset + byteLength raw) raws' =
      ((parseLines (number + 1) (offset + byteLength raw) raws).map
        (·.map Line.upperCase)).mapError ParseError.upperCase) :
    parseLines number offset (raw.map Char.toUpper :: raws') =
      ((parseLines number offset (raw :: raws)).map (·.map Line.upperCase)).mapError
        ParseError.upperCase := by
  rw [parseLines, parseLines, parseLine_upperCase number offset unquoted, byteLength_map_toUpper,
    others]
  cases parseLine number offset raw with
  | error e => rfl
  | ok line =>
    have same : line.upperCase.opcode = line.opcode := rfl
    simp only [Except.map, Except.mapError, same]
    split
    · rfl
    · cases parseLines (number + 1) (offset + byteLength raw) raws <;> rfl

theorem parseLines_upperCase (number offset : Nat) {text : List Char} (unquoted : Unquoted text) :
    parseLines number offset (rawLines (text.map Char.toUpper)) =
      ((parseLines number offset (rawLines text)).map (·.map Line.upperCase)).mapError
        ParseError.upperCase := by
  have clean' : ∀ {line : List Char}, '\n' ∉ line → '\n' ∉ line.map Char.toUpper :=
    fun {line} => mt (mem_map_toUpper_iff (by decide) line).mp
  induction text using lines_induction generalizing number offset with
  | nil =>
    rw [List.map_nil, rawLines]
    rfl
  | last line nonempty clean =>
    rw [rawLines_last nonempty clean, rawLines_last (by simpa using nonempty) (clean' clean)]
    exact parseLines_cons_upperCase unquoted rfl
  | feed line rest clean ih =>
    have parts : (line ++ '\n' :: rest).map Char.toUpper =
        line.map Char.toUpper ++ '\n' :: rest.map Char.toUpper := by
      rw [List.map_append, List.map_cons]
      rfl
    have first : (line ++ ['\n']).map Char.toUpper = line.map Char.toUpper ++ ['\n'] :=
      List.map_append
    rw [parts, rawLines_cons clean, rawLines_cons (clean' clean), ← first]
    have apart : Unquoted line ∧ Unquoted rest := by
      simpa [Unquoted, List.mem_append] using unquoted
    exact parseLines_cons_upperCase (by simpa [Unquoted] using apart.1) (ih _ _ apart.2)

/-- Reading commutes with putting a source in upper case. -/
theorem parse_upperCase {source : String} (unquoted : Unquoted source.toList) :
    parse (upperCase source) =
      ((parse source).map (·.map Line.upperCase)).mapError ParseError.upperCase := by
  rw [parse, parse, upperCase, Cursor.foldCase, String.toList_ofList,
    parseLines_upperCase 1 0 unquoted]

end Source

/-- The lines say the same at the same place, and the comments differ in their case at most. -/
structure Line.AgreesWith (line line' : Line) : Prop where
  label : line'.label = line.label
  opcode : line'.opcode = line.opcode
  operands : line'.operands = line.operands
  comment : line'.comment.map LC3.upperCase = line.comment.map LC3.upperCase
  number : line'.number = line.number
  span : line'.span = line.span

/-- The errors are of one kind at the same place, and the texts that they quote differ in their case
at most. -/
structure ParseError.AgreesWith (e e' : ParseError) : Prop where
  kind : e'.kind.upperCase = e.kind.upperCase
  line : e'.line = e.line
  column : e'.column = e.column
  span : e'.span = e.span

theorem Line.agreesWith_of_upperCase {line line' : Line}
    (same : line'.upperCase = line.upperCase) : line.AgreesWith line' where
  label := congrArg (·.label) same
  opcode := congrArg (·.opcode) same
  operands := congrArg (·.operands) same
  comment := congrArg (·.comment) same
  number := congrArg (·.number) same
  span := congrArg (·.span) same

theorem Line.forall₂_agreesWith {lines lines' : List Line}
    (same : lines'.map Line.upperCase = lines.map Line.upperCase) :
    List.Forall₂ AgreesWith lines lines' := by
  have folded := same.symm
  rw [← List.forall₂_eq_eq_eq, List.forall₂_map_left_iff, List.forall₂_map_right_iff] at folded
  exact folded.imp fun _ _ same => agreesWith_of_upperCase same.symm

theorem ParseError.agreesWith_of_upperCase {e e' : ParseError}
    (same : e'.upperCase = e.upperCase) : e.AgreesWith e' where
  kind := congrArg (·.kind) same
  line := congrArg (·.line) same
  column := congrArg (·.column) same
  span := congrArg (·.span) same

/-- The passes do not look at comments. -/
theorem Line.keeps_upperCase : Keeps Line.upperCase id :=
  ⟨fun _ => rfl, fun _ => rfl, fun _ => rfl, fun _ _ => rfl⟩

theorem Machine.assemble_upperCase (m : Machine) (lines : List Line) :
    m.assemble (lines.map Line.upperCase) = m.assemble lines := by
  rw [Line.keeps_upperCase.assemble]
  rcases m.assemble lines with ⟨_ | _, _⟩ <;> rfl

/-- Letters may be of either case outside of strings. Of two sources without a quote that are the same
in upper case, either both are read or neither is. When they are read, their lines agree, so that they
are assembled to the same image and labels or have the same error; otherwise their errors agree. -/
theorem parse_either_case {a b : String} (unquoted : '"' ∉ a.toList)
    (same : upperCase a = upperCase b) :
    ((∃ lines, Source.parse a = .ok lines) ↔ ∃ lines, Source.parse b = .ok lines) ∧
    (∀ lines lines', Source.parse a = .ok lines → Source.parse b = .ok lines' →
      List.Forall₂ Line.AgreesWith lines lines' ∧
        (∀ m : Machine, m.assemble lines' = m.assemble lines) ∧ assemble b = assemble a) ∧
    ∀ e e', Source.parse a = .error e → Source.parse b = .error e' → e.AgreesWith e' := by
  have folded : b.toList.map Char.toUpper = a.toList.map Char.toUpper :=
    (String.ofList_injective same).symm
  have unquoted' : Unquoted b.toList := by
    rwa [Unquoted, ← mem_map_toUpper_iff (by decide), folded, mem_map_toUpper_iff (by decide)]
  have read := Source.parse_upperCase unquoted'
  rw [← same, Source.parse_upperCase unquoted] at read
  cases parsed : Source.parse a with
  | error e =>
    rw [parsed] at read
    cases parsed' : Source.parse b with
    | error e' =>
      rw [parsed'] at read
      refine ⟨⟨nofun, nofun⟩, nofun, ?_⟩
      rintro _ _ ⟨⟩ ⟨⟩
      exact ParseError.agreesWith_of_upperCase (Except.error.inj read).symm
    | ok lines' =>
      rw [parsed'] at read
      cases read
  | ok lines =>
    rw [parsed] at read
    cases parsed' : Source.parse b with
    | error e' =>
      rw [parsed'] at read
      cases read
    | ok lines' =>
      rw [parsed'] at read
      have agree : lines'.map Line.upperCase = lines.map Line.upperCase :=
        (Except.ok.inj read).symm
      have images : ∀ m : Machine, m.assemble lines' = m.assemble lines := by
        intro m
        rw [← m.assemble_upperCase lines', agree, m.assemble_upperCase]
      refine ⟨⟨fun _ => ⟨_, rfl⟩, fun _ => ⟨_, rfl⟩⟩, ?_, nofun⟩
      rintro _ _ ⟨⟩ ⟨⟩
      exact ⟨Line.forall₂_agreesWith agree, images,
        by simp only [assemble, parsed, parsed', images]⟩

/-- Two lines in mixed case, with a letter that is not folded. -/
def unevenSource : String := "\u00e9nd Add r0, R1, x-1f ; Down\n.fill xLoop"

def oppositeSource : String := "\u00e9ND aDD R0, r1, X-1F ; dOWN\n.FILL XlOOP"

/-- What both sources say, but for the comment. -/
def unevenLines (comment : String) : List Line :=
  [{ label := some "\u00e9ND", opcode := some "ADD",
      operands := [.register .r0, .register ⟨1⟩, .number 0xFFE1], comment := some comment,
      number := 1, span := ⟨0, 28⟩ },
    { opcode := some ".FILL", operands := [.label "XLOOP"], number := 2, span := ⟨29, 11⟩ }]

theorem uneven_sources_read_alike :
    '"' ∉ unevenSource.toList ∧ upperCase unevenSource = upperCase oppositeSource ∧
    Source.parse unevenSource = .ok (unevenLines " Down") ∧
    List.Forall₂ Line.AgreesWith (unevenLines " Down") (unevenLines " dOWN") ∧
    assemble oppositeSource = assemble unevenSource ∧
    ParseError.AgreesWith ⟨.expectedOpcode "There", 1, 6, ⟨5, 5⟩⟩
      ⟨.expectedOpcode "tHERE", 1, 6, ⟨5, 5⟩⟩ := by
  have unquoted : '"' ∉ unevenSource.toList := by decide
  have same : upperCase unevenSource = upperCase oppositeSource := by decide +kernel
  have read : Source.parse unevenSource = .ok (unevenLines " Down") := by decide +kernel
  have read' : Source.parse oppositeSource = .ok (unevenLines " dOWN") := by decide +kernel
  obtain ⟨agree, -, images⟩ := (parse_either_case unquoted same).2.1 _ _ read read'
  have failed : Source.parse "Here There" =
      .error ⟨.expectedOpcode "There", 1, 6, ⟨5, 5⟩⟩ := by decide +kernel
  have failed' : Source.parse "hERE tHERE" =
      .error ⟨.expectedOpcode "tHERE", 1, 6, ⟨5, 5⟩⟩ := by decide +kernel
  have errors := (parse_either_case (a := "Here There") (b := "hERE tHERE") (by decide)
    (by decide)).2.2 _ _ failed failed'
  exact ⟨unquoted, same, read, agree, images, errors⟩

end LC3
