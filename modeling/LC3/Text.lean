import LC3.Text.Printable

/-!
# Ways of writing

White space, hexadecimal digits, and text between quotes.
-/

namespace LC3

/-!
## White space

The characters with the Unicode property `White_Space`.
-/

namespace Blank

def isWhite (c : Char) : Bool :=
  let n := c.toNat
  (0x09 ≤ n && n ≤ 0x0D) || n == 0x20 || n == 0x85 || n == 0xA0 || n == 0x1680 ||
    (0x2000 ≤ n && n ≤ 0x200A) || n == 0x2028 || n == 0x2029 || n == 0x202F || n == 0x205F ||
    n == 0x3000

def trim (text : List Char) : List Char :=
  ((text.dropWhile isWhite).reverse.dropWhile isWhite).reverse

end Blank

/-!
## Hexadecimal text

Addresses and bytes are written with a fixed number of hexadecimal digits, literals with as many
as they need.
-/

namespace Hex

/-- The lowest `width` digits of a number, in lower case. -/
def fixed : (width n : Nat) → List Char
  | 0, _ => []
  | width + 1, n => fixed width (n / 16) ++ [Nat.digitChar (n % 16)]

def fixedUpper (width n : Nat) : List Char := (fixed width n).map Char.toUpper

/-- As many upper-case digits as the number needs. -/
def upper (n : Nat) : List Char := (Nat.toDigits 16 n).map Char.toUpper

theorem length_fixed (width n : Nat) : (fixed width n).length = width := by
  induction width generalizing n with
  | zero => rfl
  | succ width ih => simp [fixed, ih]

end Hex

/-!
## Quoted text

A text between double quotes. Quotes, backslashes and four control characters have short escapes;
any other character that is not printable is written by its code point.
-/

namespace Quoted

def shortEscape? (c : Char) : Option Char :=
  if c = '\x00' then some '0'
  else if c = '\t' then some 't'
  else if c = '\r' then some 'r'
  else if c = '\n' then some 'n'
  else if c = '\\' then some '\\'
  else if c = '"' then some '"'
  else none

def escape (c : Char) : List Char :=
  match shortEscape? c with
  | some e => ['\\', e]
  | none =>
    if Printable.isPrintable c then [c]
    else ['\\', 'u', '{'] ++ Nat.toDigits 16 c.toNat ++ ['}']

def quote (s : String) : String :=
  String.ofList ('"' :: s.toList.flatMap escape ++ ['"'])

end Quoted

end LC3
