import LC3.Assembly.Labels

/-!
# Diagnostics

What is shown for a source that is refused: a message, a code, advice, and the place in the source
with a word on it. Each error has one place, which is the span that the error carries.
-/

namespace LC3

inductive Severity
  | advice
  | warning
  | error
deriving DecidableEq

structure Mark where
  text : String
  span : Span
deriving DecidableEq

structure Diagnostic where
  message : String
  severity : Severity
  code : String
  help : String
  marks : List Mark
deriving DecidableEq

namespace Diagnostic

def error (code help message mark : String) (span : Span) : Diagnostic :=
  ⟨message, .error, code, help, [⟨mark, span⟩]⟩

end Diagnostic

def ParseErrorKind.diagnostic (kind : ParseErrorKind) : Span → Diagnostic :=
  match kind with
  | .expectedLabelOrOpcode =>
    .error "parse::unexpected_token"
      "lines should start with a label, an instruction, a trap, or a directive."
      "Expected a label or opcode" "unexpected token"
  | .expectedOpcode found =>
    .error "parse::opcode"
      "a label may only be followed by an instruction, a trap, or a directive."
      ("Expected an opcode, found `" ++ found ++ "`") "not an opcode"
  | .expectedOperand =>
    .error "parse::operand"
      "operands are registers, literals, strings, or labels separated by commas."
      "Expected an operand" "missing operand"
  | .malformedString =>
    .error "parse::str_lit"
      "make sure to close string literals with a \" character and use known escapes."
      "Encountered an invalid string literal." "incorrect literal"
  | .malformedNumber literal =>
    .error "parse::bad_lit"
      "ranges from -65,535 to 65,535 are allowed, written as #10 or xA"
      ("Encountered an invalid literal: " ++ literal) "incorrect literal"

def LayoutErrorKind.diagnostic (kind : LayoutErrorKind) : Span → Diagnostic :=
  match kind with
  | .unknownForm opcode =>
    .error "asm::signature"
      "check the number and kind of operands allowed for this instruction."
      ("No form of `" ++ opcode ++ "` accepts these operands") "no matching form"
  | .undefinedLabel label =>
    .error "asm::undefined_label"
      "labels must be declared somewhere before `.END`."
      ("Reference to undefined label `" ++ label ++ "`") "used here"
  | .duplicateLabel label =>
    .error "asm::duplicate_label"
      "prefix labels are only allowed once per file"
      ("Duplicate prefix label `" ++ label ++ "`") "duplicate label"
  | .originNotNumber =>
    .error "asm::orig"
      ".orig requires an integer or hex literal like x3000"
      "Expected valid integer or hex literal" "not a numeric literal"
  | .unencodable reason =>
    .error "asm::construction"
      "branches need at least one of the n, z or p flags"
      reason.message "cannot be encoded"

def AssemblyError.diagnostic : AssemblyError → Diagnostic
  | .parse e => e.kind.diagnostic e.span
  | .layout e => e.kind.diagnostic e.span

end LC3
