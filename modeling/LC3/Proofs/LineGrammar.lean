import LC3.Proofs.ReaderOutcomes
import LC3.Proofs.TokenForms
import Mathlib.Control.Monad.Basic
import Mathlib.Data.List.DropRight

/-!
# The grammar of lines

A line has a label, an opcode with operands, and a comment, of which any may be missing, and blanks
wherever it is not inside one of these. A token goes on until a blank, a comma or a comment, so that
one of them has to be behind it, but behind a string the next operand may follow at once. One comma
may be behind every operand, and the last is no exception. The reader accepts just these lines. In any
other line it finds an error, and the text in front of the error is such a line.
-/

namespace LC3

namespace LineGrammar

open StringLiteral

def Blanks (text : List Char) : Prop := ∀ c ∈ text, isBlank c = true

def commentMark : Option String → List Char
  | none => []
  | some text => ';' :: text.toList

/-- Blanks, and a comment if there is one. -/
def Ends (text : List Char) (comment : Option String) : Prop :=
  ∃ blanks, Blanks blanks ∧ text = blanks ++ commentMark comment

/-- The token is as long as it can be in front of this text. -/
structure Maximal (token rest : List Char) : Prop where
  isToken : IsToken token
  stops : Stops rest

/-- An operand that is written in front of this text: a string literal, or a token that does not
begin like one. -/
inductive WrittenBefore (rest : List Char) : List Char → Operand → Prop
  | string (items : List Item) :
      WrittenBefore rest (Item.literal items) (.string (Item.string items))
  | token {token : List Char} {x : Operand} (maximal : Maximal token rest)
      (unquoted : token.head? ≠ some '"') (denotes : Denotes token x) :
      WrittenBefore rest token x

/-- Operands, each with an optional comma behind it, up to the end of the line. -/
inductive Operands : List Char → List Operand → Option String → Prop
  | done {text : List Char} {comment : Option String} (ends : Ends text comment) :
      Operands text [] comment
  | more {blanks written gap comma rest : List Char} {x : Operand} {xs : List Operand}
      {comment : Option String} (front : Blanks blanks)
      (operand : WrittenBefore (gap ++ (comma ++ rest)) written x) (behind : Blanks gap)
      (separator : comma = [] ∨ comma = [',']) (others : Operands rest xs comment) :
      Operands (blanks ++ (written ++ (gap ++ (comma ++ rest)))) (x :: xs) comment

/-- An opcode with its operands, or nothing, up to the end of the line. -/
inductive Operation : List Char → Option String → List Operand → Option String → Prop
  | none {text : List Char} {comment : Option String} (ends : Ends text comment) :
      Operation text none [] comment
  | some {blanks token rest : List Char} {xs : List Operand} {comment : Option String}
      (front : Blanks blanks) (maximal : Maximal token rest)
      (known : Keyword.isKeyword (Cursor.foldCase token) = true)
      (operands : Operands rest xs comment) :
      Operation (blanks ++ (token ++ rest)) (some (Cursor.foldCase token)) xs comment

/-- A whole line: a token that is no keyword is its label. -/
inductive Reads : List Char → Statement → Prop
  | unlabelled {text : List Char} {opcode : Option String} {operands : List Operand}
      {comment : Option String} (operation : Operation text opcode operands comment) :
      Reads text { opcode, operands, comment }
  | labelled {blanks token rest : List Char} {opcode : Option String} {operands : List Operand}
      {comment : Option String} (front : Blanks blanks) (maximal : Maximal token rest)
      (unknown : Keyword.isKeyword (Cursor.foldCase token) = false)
      (operation : Operation rest opcode operands comment) :
      Reads (blanks ++ (token ++ rest))
        { label := some (Cursor.foldCase token), opcode, operands, comment }

variable {text blanks gap comma rest written : List Char} {x : Operand} {xs : List Operand}
  {comment : Option String}

theorem Blanks.dropWhile_append (front : Blanks blanks) (text : List Char) :
    (blanks ++ text).dropWhile isBlank = text.dropWhile isBlank :=
  List.dropWhile_append_of_pos front

theorem dropWhile_commentMark (comment : Option String) :
    (commentMark comment).dropWhile isBlank = commentMark comment := by
  cases comment with
  | none => rfl
  | some text => exact List.dropWhile_cons_of_neg (by decide)

theorem WrittenBefore.begins (operand : WrittenBefore rest written x) :
    ∃ d others, written = d :: others ∧ endsToken d = false := by
  cases operand with
  | string items => exact ⟨'"', _, rfl, rfl⟩
  | token maximal unquoted denotes => exact maximal.isToken.begins

theorem dropWhile_of_begins (begins : ∃ d others, written = d :: others ∧ endsToken d = false)
    (rest : List Char) : (written ++ rest).dropWhile isBlank = written ++ rest := by
  obtain ⟨d, others, rfl, inside⟩ := begins
  refine List.dropWhile_cons_of_neg ?_
  rw [Cursor.isBlank_of_endsToken inside]
  exact Bool.false_ne_true

/-- A comma is not where an operand or the end of a line may be. -/
theorem Operands.head?_ne_comma (operands : Operands text xs comment) :
    (text.dropWhile isBlank).head? ≠ some ',' := by
  cases operands with
  | done ends =>
    obtain ⟨blanks, front, rfl⟩ := ends
    rw [front.dropWhile_append, dropWhile_commentMark]
    cases comment <;> simp [commentMark]
  | more front operand behind separator others =>
    rw [front.dropWhile_append, dropWhile_of_begins operand.begins]
    obtain ⟨d, others, rfl, inside⟩ := operand.begins
    intro comma
    cases comma
    cases inside

end LineGrammar

namespace Cursor

open LineGrammar StringLiteral

variable {c next : Cursor} {text blanks gap comma rest written : List Char} {x : Operand}
  {xs : List Operand} {comment : Option String} {s : Statement} {label k : String}

theorem rest_eq_blanks (c : Cursor) :
    ∃ blanks, Blanks blanks ∧ c.rest = blanks ++ c.skipBlanks.rest :=
  ⟨c.rest.takeWhile isBlank, List.all_eq_true.mp List.all_takeWhile,
    List.takeWhile_append_dropWhile.symm⟩

/-- What is in front of a token or a string is skipped, and the line goes on there. -/
theorem skipBlanks_of_begins (begins : ∃ d others, written = d :: others ∧ endsToken d = false)
    (front : Blanks blanks)
    (ahead : c.rest.dropWhile isBlank = (blanks ++ (written ++ rest)).dropWhile isBlank) :
    c.skipBlanks.rest = written ++ rest ∧ c.skipBlanks.ending? = none := by
  have skipped : c.skipBlanks.rest = written ++ rest := by
    rw [skipBlanks, moveTo_rest, ahead, front.dropWhile_append, dropWhile_of_begins begins]
  obtain ⟨d, others, rfl, inside⟩ := begins
  exact ⟨skipped, (skipBlanks_of_cons inside skipped).2⟩

theorem ending?_eq_some_of_ends (ends : Ends text comment)
    (ahead : c.rest.dropWhile isBlank = text.dropWhile isBlank) :
    c.skipBlanks.ending? = some comment := by
  obtain ⟨blanks, front, rfl⟩ := ends
  have skipped : c.skipBlanks.rest = commentMark comment := by
    rw [skipBlanks, moveTo_rest, ahead, front.dropWhile_append, dropWhile_commentMark]
  rw [ending?, skipped]
  cases comment with
  | none => rfl
  | some text => simp only [commentMark, String.ofList_toList]

theorem ends_of_ending? (ended : c.skipBlanks.ending? = some comment) : Ends c.rest comment := by
  obtain ⟨blanks, front, shape⟩ := c.rest_eq_blanks
  refine ⟨blanks, front, ?_⟩
  rw [shape]
  rw [ending?] at ended
  split at ended
  · next empty =>
    cases ended
    rw [empty, commentMark]
  · next text mark =>
    cases ended
    rw [mark, commentMark, String.toList_ofList]
  · cases ended

/-- A token that is not empty is as long as it can be. -/
theorem maximal_token (nonempty : c.token.1 ≠ []) : Maximal c.token.1 c.token.2.rest :=
  ⟨isToken_token nonempty, c.stops_token⟩

/-- A token behind blanks is the next token. -/
theorem token_of_maximal {token : List Char} (maximal : Maximal token rest)
    (front : Blanks blanks) (ahead : c.rest = blanks ++ (token ++ rest)) :
    c.skipBlanks.ending? = none ∧ c.skipBlanks.token = (token, c.skipBlanks.moveTo rest) ∧
      token.isEmpty = false := by
  obtain ⟨skipped, going⟩ := skipBlanks_of_begins maximal.isToken.begins front (by rw [ahead])
  exact ⟨going, token_eq maximal.isToken maximal.stops skipped,
    List.isEmpty_eq_false_iff.mpr maximal.isToken.nonempty⟩

theorem writtenBefore_of_operand (read : c.operand = .ok (x, next)) :
    ∃ written, c.rest = written ++ next.rest ∧ WrittenBefore next.rest written x := by
  by_cases quoted : ∃ text, c.rest = '"' :: text
  · obtain ⟨text, quoted⟩ := quoted
    rw [operand_of_quote quoted] at read
    split at read
    · next cs after closed =>
      cases read
      obtain ⟨items, rfl, rfl⟩ := exists_items_of_body closed
      exact ⟨Item.literal items, by simp [quoted, Item.literal, moveTo], .string items⟩
    · cases read
  · have unquoted := not_exists.mp quoted
    have nonempty := token_ne_nil_of_operand unquoted read
    have unquoted' := head?_token_ne_quote unquoted
    obtain ⟨denotes, rfl⟩ := (operand_eq_ok_iff (isToken_token nonempty) unquoted' c.stops_token
      c.rest_eq_token).mp read
    exact ⟨c.token.1, c.rest_eq_token, .token (maximal_token nonempty) unquoted' denotes⟩

theorem operand_of_writtenBefore (operand : WrittenBefore rest written x)
    (ahead : c.rest = written ++ rest) : c.operand = .ok (x, c.moveTo rest) := by
  cases operand with
  | string items =>
    rw [moveTo_of_append ahead]
    exact operand_eq_string_iff.mpr ⟨items, rest, ahead, rfl, rfl⟩
  | token maximal unquoted denotes =>
    exact (operand_eq_ok_iff maximal.isToken unquoted maximal.stops ahead).mpr ⟨denotes, rfl⟩

/-- Behind an operand there are blanks, and then a comma or none. -/
theorem rest_eq_separator (c : Cursor) :
    ∃ gap comma, Blanks gap ∧ (comma = [] ∨ comma = [',']) ∧
      c.rest = gap ++ (comma ++ c.skipSeparator.rest) := by
  obtain ⟨gap, behind, shape⟩ := c.rest_eq_blanks
  rw [skipSeparator, skipComma]
  split
  · next rest comma => exact ⟨gap, [','], behind, .inr rfl, by rw [shape, comma]; rfl⟩
  · exact ⟨gap, [], behind, .inl rfl, shape⟩

theorem skipSeparator_of_gap (behind : Blanks gap) (separator : comma = [] ∨ comma = [','])
    (first : (rest.dropWhile isBlank).head? ≠ some ',') (ahead : c.rest = gap ++ (comma ++ rest)) :
    c.skipSeparator.rest.dropWhile isBlank = rest.dropWhile isBlank := by
  have skipped : c.skipBlanks.rest = (comma ++ rest).dropWhile isBlank := by
    rw [skipBlanks, moveTo_rest, ahead, behind.dropWhile_append]
  rw [skipSeparator, skipComma]
  -- Without a comma of its own, an operand must not take one from what follows.
  rcases separator with rfl | rfl
  · rw [List.nil_append] at skipped
    split
    · next others comma =>
      rw [← skipped, comma] at first
      exact absurd rfl first
    · rw [skipped, List.dropWhile_idempotent]
  · rw [List.cons_append, List.dropWhile_cons_of_neg (by decide)] at skipped
    simp only [skipped, moveTo_rest, List.nil_append]

/-- The blanks behind an operand may be skipped with it or later, so that what is left of the line
is compared without the blanks in front. -/
theorem operands_of_grammar (operands : Operands text xs comment)
    (ahead : c.rest.dropWhile isBlank = text.dropWhile isBlank) :
    c.operands = .ok (xs, comment) := by
  induction operands generalizing c with
  | done ends => exact operands_of_ending? (ending?_eq_some_of_ends ends ahead)
  | more front operand behind separator others ih =>
    obtain ⟨skipped, going⟩ := skipBlanks_of_begins operand.begins front ahead
    have read := operand_of_writtenBefore operand skipped
    have onward := skipSeparator_of_gap behind separator others.head?_ne_comma
      (c.skipBlanks.moveTo_rest _)
    rw [operands_of_operand going read, ih onward]
    rfl

theorem grammar_of_operands (c : Cursor) :
    ∀ {xs comment}, c.operands = .ok (xs, comment) → Operands c.rest xs comment := by
  fun_induction operands c with
  | case1 c comment ended =>
    intro xs comment' read
    cases read
    exact .done (ends_of_ending? ended)
  | case2 | case3 =>
    intro xs comment read
    cases read
  | case4 c going x next read _ xs comment others ih =>
    intro xs' comment' same
    cases same
    obtain ⟨blanks, front, shape₁⟩ := c.rest_eq_blanks
    obtain ⟨written, shape₂, operand⟩ := writtenBefore_of_operand read
    obtain ⟨gap, comma, behind, separator, shape₃⟩ := next.rest_eq_separator
    rw [shape₃] at operand shape₂
    rw [shape₁, shape₂]
    exact .more front operand behind separator (ih others)

/-- The operands of a line are read exactly as the grammar has them. -/
theorem operands_eq_ok_iff : c.operands = .ok (xs, comment) ↔ Operands c.rest xs comment :=
  ⟨c.grammar_of_operands, fun operands => operands_of_grammar operands rfl⟩

theorem operation_eq_ok_iff {label : Option String} :
    c.operation label k = .ok s ↔ ∃ xs comment, Operands c.rest xs comment ∧
      s = { label, opcode := some k, operands := xs, comment } := by
  rw [operation]
  constructor
  · intro read
    split at read
    · cases read
    · next xs comment read' =>
      cases read
      exact ⟨xs, comment, operands_eq_ok_iff.mp read', rfl⟩
  · rintro ⟨xs, comment, operands, rfl⟩
    rw [operands_eq_ok_iff.mpr operands]

/-- A keyword that is next is the opcode, and its operands follow. -/
theorem operation_of_keyword (nonempty : c.skipBlanks.token.1 ≠ [])
    (known : Keyword.isKeyword (foldCase c.skipBlanks.token.1) = true)
    (operands : Operands c.skipBlanks.token.2.rest xs comment) :
    Operation c.rest (some (foldCase c.skipBlanks.token.1)) xs comment := by
  obtain ⟨blanks, front, shape⟩ := c.rest_eq_blanks
  rw [shape, c.skipBlanks.rest_eq_token]
  exact .some front (maximal_token nonempty) known operands

theorem afterLabel_eq_ok_iff : c.afterLabel label = .ok s ↔
    ∃ opcode xs comment, Operation c.rest opcode xs comment ∧
      s = { label := some label, opcode, operands := xs, comment } := by
  constructor
  · intro read
    rw [afterLabel] at read
    split at read
    · next comment ended =>
      cases read
      exact ⟨none, [], comment, .none (ends_of_ending? ended), rfl⟩
    · dsimp only at read
      split at read
      · next known =>
        obtain ⟨xs, comment, operands, rfl⟩ := operation_eq_ok_iff.mp read
        have nonempty : c.skipBlanks.token.1 ≠ [] := by
          intro empty
          rw [empty] at known
          cases known
        exact ⟨_, xs, comment, operation_of_keyword nonempty known operands, rfl⟩
      · cases read
  · rintro ⟨opcode, xs, comment, operation, rfl⟩
    rw [afterLabel]
    generalize shape : c.rest = text at operation
    cases operation with
    | none ends => rw [ending?_eq_some_of_ends ends (by rw [shape])]
    | some front maximal known operands =>
      obtain ⟨going, next, -⟩ := token_of_maximal maximal front shape
      rw [going]
      simp only [next, known, if_true]
      exact operation_eq_ok_iff.mpr ⟨_, _, operands, rfl⟩

theorem reads_of_statement (read : c.statement = .ok s) : Reads c.rest s := by
  rw [statement] at read
  split at read
  · next comment ended =>
    cases read
    exact .unlabelled (.none (ends_of_ending? ended))
  · dsimp only at read
    split at read
    · cases read
    · next nonempty =>
      have nonempty' : c.skipBlanks.token.1 ≠ [] := by simpa using nonempty
      split at read
      · next known =>
        obtain ⟨xs, comment, operands, rfl⟩ := operation_eq_ok_iff.mp read
        exact .unlabelled (operation_of_keyword nonempty' known operands)
      · next unknown =>
        obtain ⟨opcode, xs, comment, operation, rfl⟩ := afterLabel_eq_ok_iff.mp read
        obtain ⟨blanks, front, shape⟩ := c.rest_eq_blanks
        rw [shape, c.skipBlanks.rest_eq_token]
        exact .labelled front (maximal_token nonempty') (Bool.eq_false_iff.mpr unknown) operation

theorem statement_of_reads (reads : Reads c.rest s) : c.statement = .ok s := by
  rw [statement]
  generalize shape : c.rest = text at reads
  cases reads with
  | unlabelled operation =>
    cases operation with
    | none ends => rw [ending?_eq_some_of_ends ends (by rw [shape])]
    | some front maximal known operands =>
      obtain ⟨going, next, nonempty⟩ := token_of_maximal maximal front shape
      rw [going]
      simp only [next, nonempty, known, Bool.false_eq_true, if_false, if_true]
      exact operation_eq_ok_iff.mpr ⟨_, _, operands, rfl⟩
  | labelled front maximal unknown operation =>
    obtain ⟨going, next, nonempty⟩ := token_of_maximal maximal front shape
    rw [going]
    simp only [next, nonempty, unknown, Bool.false_eq_true, if_false]
    exact afterLabel_eq_ok_iff.mpr ⟨_, _, _, operation, rfl⟩

/-- A line is read exactly as the grammar has it. -/
theorem statement_eq_ok_iff : c.statement = .ok s ↔ Reads c.rest s :=
  ⟨reads_of_statement, statement_of_reads⟩

/-- The text in front of an error is read. -/
theorem exists_before_of_error {e : LineError} (failed : (start text).statement = .error e) :
    ∃ before after, text = before ++ after ∧ e.span.offset = byteLength before ∧
      ∃ s, (start before).statement = .ok s := by
  have outcome := statement_outcome (start text)
  rw [failed] at outcome
  obtain ⟨before, found, after, shape, span, -, reads⟩ := outcome
  refine ⟨before, found ++ after, shape, ?_, ?_⟩
  · rw [span]
    exact Nat.zero_add _
  · exact reads (start before) rfl

end Cursor

namespace Source

open LineGrammar

/-- A text is read exactly when it is in the grammar, as what the grammar reads there. So is a line
with this text, and at the column of any error the text of the line is cut into a text that is read
and the rest. -/
theorem parseLine_grammar (text : List Char) :
    (∀ s, (Cursor.start text).statement = .ok s ↔ Reads text s) ∧
    ∀ raw number offset, withoutTerminator raw = text →
      (∀ line, parseLine number offset raw = .ok line ↔
        Reads text line.toStatement ∧ line.number = number ∧
          line.span = ⟨offset, byteLength text⟩) ∧
      (∀ e, parseLine number offset raw = .error e →
        ∃ before after s, text = before ++ after ∧ e.column = byteLength before + 1 ∧
          (Cursor.start before).statement = .ok s) := by
  have read : ∀ s, (Cursor.start text).statement = .ok s ↔ Reads text s :=
    fun s => Cursor.statement_eq_ok_iff
  refine ⟨read, ?_⟩
  rintro raw number offset rfl
  constructor
  · intro line
    rw [← read, parseLine]
    constructor
    · intro parsed
      split at parsed
      · cases parsed
      · next s found =>
        cases parsed
        exact ⟨found, rfl, rfl⟩
    · rintro ⟨found, rfl, place⟩
      simp only [found]
      rw [← place]
  · intro e failed
    rw [parseLine] at failed
    split at failed
    · next e' failed' =>
      cases failed
      obtain ⟨before, after, shape, place, s, reads⟩ := Cursor.exists_before_of_error failed'
      exact ⟨before, after, s, shape, congrArg (· + 1) place, reads⟩
    · cases failed

/-- A string with a label right behind it and a comma at the end of the operands, and a line with a
number that is out of range. -/
theorem reads_glued_operands :
    Reads "go LD R1 \"a\"b,;c".toList
      { label := "GO", opcode := "LD",
        operands := [.register ⟨1⟩, .string "a", .label "B"], comment := "c" } ∧
    ∃ before after s, "x .FILL #70000".toList = before ++ after ∧ byteLength before = 8 ∧
      (Cursor.start before).statement = .ok s := by
  constructor
  · exact (((parseLine_grammar "go LD R1 \"a\"b,;c".toList).2 "go LD R1 \"a\"b,;c\r\n".toList 3 7
      (by decide +kernel)).1 ⟨_, 3, ⟨7, 16⟩⟩).mp (by decide +kernel) |>.1
  · obtain ⟨before, after, s, shape, column, read⟩ :=
      ((parseLine_grammar "x .FILL #70000".toList).2 "x .FILL #70000\n".toList 1 0
        (by decide +kernel)).2 ⟨.malformedNumber "#70000", 1, 9, ⟨8, 6⟩⟩ (by decide +kernel)
    exact ⟨before, after, s, shape, (Nat.succ.inj column).symm, read⟩

end Source

end LC3
