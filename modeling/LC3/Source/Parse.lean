import LC3.Source.Token

/-!
# Reading source text

A source is cut into lines, and each line is read on its own: a name that is no keyword is a
label, then comes an opcode, then operands up to the end or a comment. Reading stops after a line
with the keyword `.END` and at the first line that is in error. Errors carry the place of the text
that they are about.
-/

namespace LC3

inductive ParseErrorKind
  | expectedLabelOrOpcode
  | expectedOpcode (found : String)
  | expectedOperand
  | malformedString
  | malformedNumber (literal : String)
deriving DecidableEq

def ParseErrorKind.message : ParseErrorKind → String
  | .expectedLabelOrOpcode => "label or opcode expected"
  | .expectedOpcode found => "opcode expected, found `" ++ found ++ "`"
  | .expectedOperand => "operand expected"
  | .malformedString => "malformed string literal"
  | .malformedNumber literal => "malformed numeric literal `" ++ literal ++ "`"

/-- An error in a source: line and column are counted from one, the column in bytes. -/
structure ParseError where
  kind : ParseErrorKind
  line : Nat
  column : Nat
  span : Span
deriving DecidableEq

def ParseError.message (e : ParseError) : String :=
  e.kind.message ++ " at " ++ e.line.repr ++ ":" ++ e.column.repr

structure LineError where
  kind : ParseErrorKind
  span : Span
deriving DecidableEq

/-- The error in the source, for a line with this number that begins at this offset. -/
def LineError.inSource (e : LineError) (number offset : Nat) : ParseError :=
  ⟨e.kind, number, e.span.offset + 1, ⟨offset + e.span.offset, e.span.length⟩⟩

namespace Cursor

/-- The text in upper case, for which only the ASCII letters have one. -/
def foldCase (token : List Char) : String := String.ofList (token.map Char.toUpper)

/-- Reads an operand: a string literal, or else a token that is a register, a number or a name. -/
def operand (c : Cursor) : Except LineError (Operand × Cursor) :=
  match c.rest with
  | '"' :: text =>
    match StringLiteral.body text with
    | some (cs, after) => .ok (.string (String.ofList cs), c.moveTo after)
    | none => .error ⟨.malformedString, ⟨c.offset, byteLength c.rest⟩⟩
  | _ =>
    let (token, next) := c.token
    if token.isEmpty then .error ⟨.expectedOperand, ⟨c.offset, 1⟩⟩
    else
      match Register.ofName? token with
      | some r => .ok (.register r, next)
      | none =>
        match NumberToken.classify (token.map Char.toUpper) with
        | .number w => .ok (.number w, next)
        | .malformed =>
          .error ⟨.malformedNumber (String.ofList token), ⟨c.offset, byteLength token⟩⟩
        | .name => .ok (.label (foldCase token), next)

theorem length_lt_of_operand {c next : Cursor} {x : Operand} (h : c.operand = .ok (x, next)) :
    next.rest.length < c.rest.length := by
  have sum := c.length_token_add
  unfold operand at h
  split at h
  · next text hq =>
    split at h
    · next cs after hb =>
      cases h
      have := StringLiteral.length_lt_of_body hb
      simp only [moveTo, hq, List.length_cons]
      omega
    · cases h
  · have positive : ¬c.token.1.isEmpty → 0 < c.token.1.length := by
      cases c.token.1 <;> simp
    grind

/-- Reads operands, each with an optional comma after it, and the comment that may end them. -/
def operands (c : Cursor) : Except LineError (List Operand × Option String) :=
  match c.skipBlanks.ending? with
  | some comment => .ok ([], comment)
  | none =>
    match h : c.skipBlanks.operand with
    | .error e => .error e
    | .ok (x, next) =>
      have : next.skipSeparator.rest.length < c.rest.length :=
        Nat.lt_of_le_of_lt next.length_skipSeparator_le
          (Nat.lt_of_lt_of_le (length_lt_of_operand h) c.length_skipBlanks_le)
      match operands next.skipSeparator with
      | .error e => .error e
      | .ok (xs, comment) => .ok (x :: xs, comment)
termination_by c.rest.length
decreasing_by assumption

def operation (c : Cursor) (label : Option String) (opcode : String) :
    Except LineError Statement :=
  match c.operands with
  | .error e => .error e
  | .ok (operands, comment) => .ok { label, opcode := some opcode, operands, comment }

def afterLabel (c : Cursor) (label : String) : Except LineError Statement :=
  match c.skipBlanks.ending? with
  | some comment => .ok { label := some label, comment }
  | none =>
    let (token, next) := c.skipBlanks.token
    if Keyword.isKeyword (foldCase token) then next.operation (some label) (foldCase token)
    else .error ⟨.expectedOpcode (String.ofList token),
      ⟨c.skipBlanks.offset, max 1 (byteLength token)⟩⟩

def statement (c : Cursor) : Except LineError Statement :=
  match c.skipBlanks.ending? with
  | some comment => .ok { comment }
  | none =>
    let (token, next) := c.skipBlanks.token
    if token.isEmpty then .error ⟨.expectedLabelOrOpcode, ⟨c.skipBlanks.offset, 1⟩⟩
    else if Keyword.isKeyword (foldCase token) then next.operation none (foldCase token)
    else next.afterLabel (foldCase token)

end Cursor

namespace Source

/-- Cuts a text after each line feed. -/
def rawLines (text : List Char) : List (List Char) :=
  match text with
  | [] => []
  | c :: cs =>
    match h : (c :: cs).dropWhile (· != '\n') with
    | [] => [c :: cs]
    | feed :: rest =>
      have : rest.length < (c :: cs).length := by
        have shorter := (List.dropWhile_sublist (· != '\n') (l := c :: cs)).length_le
        rwa [h] at shorter
      ((c :: cs).takeWhile (· != '\n') ++ [feed]) :: rawLines rest
termination_by text.length
decreasing_by assumption

def stripLast (last : Char) (text : List Char) : List Char :=
  if text.getLast? = some last then text.dropLast else text

def withoutTerminator (raw : List Char) : List Char := stripLast '\r' (stripLast '\n' raw)

def parseLine (number offset : Nat) (raw : List Char) : Except ParseError Line :=
  let text := withoutTerminator raw
  match (Cursor.start text).statement with
  | .error e => .error (e.inSource number offset)
  | .ok s => .ok { toStatement := s, number, span := ⟨offset, byteLength text⟩ }

def parseLines (number offset : Nat) : List (List Char) → Except ParseError (List Line)
  | [] => .ok []
  | raw :: rest =>
    match parseLine number offset raw with
    | .error e => .error e
    | .ok line =>
      if line.opcode = some Keyword.finish then .ok [line]
      else
        match parseLines (number + 1) (offset + byteLength raw) rest with
        | .error e => .error e
        | .ok lines => .ok (line :: lines)

def parse (source : String) : Except ParseError (List Line) :=
  parseLines 1 0 (rawLines source.toList)

end Source

end LC3
