import LC3.Source.Line

/-!
# The tokens of a line

A line is read at a cursor that moves over it. Its tokens are names, registers, numbers and string
literals.
-/

namespace LC3

/-!
## Cursors

A cursor is a place in a line: the number of bytes before it and the characters from it on. It only
moves over whole characters.
-/

/-- Space, tabulator, carriage return and line feed. -/
def isBlank (c : Char) : Bool := c == ' ' || c == '\t' || c == '\r' || c == '\n'

/-- Whether the character ends a token: a blank, a comma, or the start of a comment. -/
def endsToken (c : Char) : Bool := isBlank c || c == ',' || c == ';'

structure Cursor where
  offset : Nat
  rest : List Char

namespace Cursor

def start (text : List Char) : Cursor := ⟨0, text⟩

def moveTo (c : Cursor) (rest : List Char) : Cursor :=
  ⟨c.offset + (byteLength c.rest - byteLength rest), rest⟩

def skipBlanks (c : Cursor) : Cursor := c.moveTo (c.rest.dropWhile isBlank)

/-- The characters up to the next one that ends a token, and the place there. -/
def token (c : Cursor) : List Char × Cursor :=
  (c.rest.takeWhile (!endsToken ·), c.moveTo (c.rest.dropWhile (!endsToken ·)))

def skipComma (c : Cursor) : Cursor :=
  match c.rest with
  | ',' :: rest => c.moveTo rest
  | _ => c

def skipSeparator (c : Cursor) : Cursor := c.skipBlanks.skipComma

/-- At the end of a line there is no more text, or a comment; elsewhere there is neither. -/
def ending? (c : Cursor) : Option (Option String) :=
  match c.rest with
  | [] => some none
  | ';' :: comment => some (some (String.ofList comment))
  | _ => none

theorem length_skipBlanks_le (c : Cursor) : c.skipBlanks.rest.length ≤ c.rest.length :=
  (List.dropWhile_sublist _).length_le

theorem length_skipComma_le (c : Cursor) : c.skipComma.rest.length ≤ c.rest.length := by
  unfold skipComma
  split
  · next h =>
    rw [h, List.length_cons]
    exact Nat.le_succ _
  · exact Nat.le_refl _

theorem length_skipSeparator_le (c : Cursor) :
    c.skipSeparator.rest.length ≤ c.rest.length :=
  Nat.le_trans c.skipBlanks.length_skipComma_le c.length_skipBlanks_le

theorem length_token_add (c : Cursor) :
    c.token.1.length + c.token.2.rest.length = c.rest.length := by
  simp only [token, moveTo, ← List.length_append, List.takeWhile_append_dropWhile]

end Cursor

/-!
## String literals

A literal runs from a double quote to the next one that no backslash precedes. The escape `\x`
takes two characters that together are a hexadecimal number, of which the first may be a plus
sign, and stands for the character with that code.
-/

namespace StringLiteral

/-- The character that a one-letter escape stands for. -/
def escaped? (c : Char) : Option Char :=
  match c with
  | 'n' => some '\n'
  | 't' => some '\t'
  | 'r' => some '\r'
  | 'a' => some '\x07'
  | 'b' => some '\x08'
  | 'f' => some '\x0c'
  | 'v' => some '\x0b'
  | 'e' => some '\x1b'
  | '0' => some '\x00'
  | '\\' => some '\\'
  | '"' => some '"'
  | '\'' => some '\''
  | _ => none

def hexValue? (c : Char) : Option Nat :=
  if '0' ≤ c ∧ c ≤ '9' then some (c.toNat - '0'.toNat)
  else if 'a' ≤ c ∧ c ≤ 'f' then some (c.toNat - 'a'.toNat + 10)
  else if 'A' ≤ c ∧ c ≤ 'F' then some (c.toNat - 'A'.toNat + 10)
  else none

def coded? (high low : Char) : Option Char :=
  match hexValue? high, hexValue? low with
  | some h, some l => some (Char.ofNat (16 * h + l))
  | none, some l => if high = '+' then some (Char.ofNat l) else none
  | _, none => none

/-- The rest of a literal after its opening quote: the characters it stands for and the text after
the closing quote. -/
def body : List Char → Option (List Char × List Char)
  | [] => none
  | c :: rest =>
    if c = '"' then some ([], rest)
    else if c = '\\' then
      match rest with
      | 'x' :: high :: low :: rest =>
        match coded? high low, body rest with
        | some c, some (cs, after) => some (c :: cs, after)
        | _, _ => none
      | letter :: rest =>
        match escaped? letter, body rest with
        | some c, some (cs, after) => some (c :: cs, after)
        | _, _ => none
      | [] => none
    else
      match body rest with
      | some (cs, after) => some (c :: cs, after)
      | none => none

theorem length_lt_of_body {text cs after : List Char} (h : body text = some (cs, after)) :
    after.length < text.length := by
  fun_induction body text generalizing cs <;>
    simp_all only [reduceCtorEq, Option.some.injEq, Prod.mk.injEq, List.length_cons] <;> grind

end StringLiteral

/-!
## Numeric literals

A token that begins with `#` is meant as a decimal number, and one that begins with `X` as a
hexadecimal number, but only if nothing else than hexadecimal digits follows; otherwise it is a
name. Either may carry a minus sign, which negates modulo the word size.
-/

namespace NumberToken

def decimalValue? (c : Char) : Option Nat :=
  if '0' ≤ c ∧ c ≤ '9' then some (c.toNat - '0'.toNat) else none

/-- The number that a text of digits stands for; none if one of them is no digit. -/
def value? (base : Nat) (digitValue? : Char → Option Nat) : List Char → Option Nat :=
  go 0
where
  go (acc : Nat) : List Char → Option Nat
    | [] => some acc
    | c :: rest =>
      match digitValue? c with
      | some d => go (base * acc + d) rest
      | none => none

/-- A minus sign at the front, and the text after it. -/
def splitSign : List Char → Bool × List Char
  | '-' :: rest => (true, rest)
  | text => (false, text)

/-- The word of a text with an optional minus sign and at least one digit, if the number without
its sign fits in a word. -/
def word? (base : Nat) (digitValue? : Char → Option Nat) (text : List Char) : Option Word :=
  let (negative, digits) := splitSign text
  if digits.isEmpty then none
  else
    match value? base digitValue? digits with
    | some n =>
      if n < UInt16.size then
        some (if negative then -BitVec.ofNat 16 n else BitVec.ofNat 16 n)
      else none
    | none => none

inductive Class
  | number (w : Word)
  | malformed
  | name
deriving DecidableEq

def Class.ofWord? : Option Word → Class
  | some w => .number w
  | none => .malformed

def classify : List Char → Class
  | '#' :: rest => .ofWord? (word? 10 decimalValue? rest)
  | 'X' :: rest =>
    let digits := (splitSign rest).2
    if digits.isEmpty || digits.any fun c => (StringLiteral.hexValue? c).isNone then .name
    else .ofWord? (word? 16 StringLiteral.hexValue? rest)
  | _ => .name

end NumberToken

end LC3
