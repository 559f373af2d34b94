import LC3.Proofs.LiteralGrammar
import Mathlib.Data.Nat.Digits.Defs

/-!
# The forms of operand tokens

What a token stands for is decided by its characters alone. A register is its letter and a digit, a
number is the mark of its base, a sign and digits, and any other token is a name, apart from those
that look like a number and are not in the range of words. Zeros in front of a number make no
difference, and the sign negates modulo the word size.
-/

namespace LC3

namespace NumberToken

/-- The character is the digit of the number in this base, in either case. -/
structure IsDigit (base : Nat) (c : Char) (v : Nat) : Prop where
  small : v < base
  written : c = Nat.digitChar v ∨ c = (Nat.digitChar v).toUpper

/-- The digits, with the highest first, write the number in this base. -/
structure IsNumeral (base : Nat) (digits : List Char) (n : Nat) : Prop where
  nonempty : digits ≠ []
  value : ∃ values, List.Forall₂ (IsDigit base) digits values ∧
    n = Nat.ofDigits base values.reverse

/-- A minus sign in front of the digits of a negative number. -/
def minus (negative : Bool) : List Char := if negative then ['-'] else []

def signedWord (negative : Bool) (n : Nat) : Word :=
  if negative then -BitVec.ofNat 16 n else BitVec.ofNat 16 n

inductive Base
  | decimal
  | hexadecimal

namespace Base

def size : Base → Nat
  | .decimal => 10
  | .hexadecimal => 16

def marks : Base → List Char
  | .decimal => ['#']
  | .hexadecimal => ['x', 'X']

def digitValue? : Base → Char → Option Nat
  | .decimal => decimalValue?
  | .hexadecimal => StringLiteral.hexValue?

/-- A mark, an optional minus sign and the digits of the number, however large it is. -/
def Form (b : Base) (token : List Char) (negative : Bool) (n : Nat) : Prop :=
  ∃ mark digits, mark ∈ b.marks ∧ token = mark :: (minus negative ++ digits) ∧
    IsNumeral b.size digits n

end Base

/-- The token is a number in the range of words, and stands for this word. -/
def IsLiteral (token : List Char) (w : Word) : Prop :=
  ∃ (b : Base) (negative : Bool) (n : Nat), b.Form token negative n ∧ n ≤ 65535 ∧
    w = signedWord negative n

/-- The token begins like a decimal number and is none, or is a hexadecimal number out of range. -/
def IsMalformed (token : List Char) : Prop :=
  (token.head? = some '#' ∧ ∀ w, ¬IsLiteral token w) ∨
    ∃ negative n, Base.hexadecimal.Form token negative n ∧ 65535 < n

theorem decimalValue?_eq_some_iff {c : Char} {v : Nat} :
    decimalValue? c = some v ↔ StringLiteral.hexValue? c = some v ∧ v < 10 := by
  unfold decimalValue? StringLiteral.hexValue?
  by_cases range : '0' ≤ c ∧ c ≤ '9'
  · rw [if_pos range, if_pos range]
    have last : c.toNat ≤ '9'.toNat := range.2
    constructor
    · intro value
      cases value
      exact ⟨rfl, by simp at last ⊢; omega⟩
    · exact And.left
  · rw [if_neg range, if_neg range]
    constructor
    · exact nofun
    · rintro ⟨value, small⟩
      split at value
      · cases value
        omega
      · split at value
        · cases value
          omega
        · cases value

namespace Base

variable {token text digits : List Char} {negative : Bool} {n : Nat} {w : Word}

theorem digitValue?_eq_some_iff (b : Base) {c : Char} {v : Nat} :
    b.digitValue? c = some v ↔ IsDigit b.size c v := by
  cases b with
  | decimal =>
    rw [digitValue?, decimalValue?_eq_some_iff, StringLiteral.hexValue?_eq_some_iff]
    constructor
    · rintro ⟨digit, small⟩
      exact ⟨small, digit.written⟩
    · intro digit
      have small : v < 10 := digit.small
      exact ⟨⟨by omega, digit.written⟩, small⟩
  | hexadecimal =>
    rw [digitValue?, StringLiteral.hexValue?_eq_some_iff]
    exact ⟨fun digit => ⟨digit.small, digit.written⟩, fun digit => ⟨digit.small, digit.written⟩⟩

theorem digitValue?_toUpper (b : Base) (c : Char) : b.digitValue? c.toUpper = b.digitValue? c := by
  cases b with
  | decimal =>
    exact toUpper_induction (P := fun c d => decimalValue? d = decimalValue? c)
      (fun _ => rfl) (by decide) c
  | hexadecimal => exact hexValue?_toUpper c

theorem digitValue?_minus (b : Base) : b.digitValue? '-' = none := by
  cases b <;> rfl

theorem go_eq_some_iff (b : Base) {acc : Nat} :
    value?.go b.size b.digitValue? acc digits = some n ↔
      ∃ values, List.Forall₂ (IsDigit b.size) digits values ∧
        n = values.foldl (fun high v => b.size * high + v) acc := by
  induction digits generalizing acc with
  | nil =>
    constructor
    · intro read
      cases read
      exact ⟨[], .nil, rfl⟩
    · rintro ⟨values, each, rfl⟩
      cases each
      rfl
  | cons c digits ih =>
    rw [value?.go]
    constructor
    · intro read
      split at read
      · next v digit =>
        obtain ⟨values, each, rfl⟩ := ih.mp read
        exact ⟨v :: values, .cons (b.digitValue?_eq_some_iff.mp digit) each, rfl⟩
      · cases read
    · rintro ⟨values, each, rfl⟩
      cases each with
      | cons digit others =>
        simp only [b.digitValue?_eq_some_iff.mpr digit]
        exact ih.mpr ⟨_, others, rfl⟩

/-- Digits are read as the number that they write. -/
theorem isNumeral_iff (b : Base) :
    IsNumeral b.size digits n ↔ digits ≠ [] ∧ value? b.size b.digitValue? digits = some n := by
  have highest_first : ∀ values : List Nat, Nat.ofDigits b.size values.reverse =
      values.foldl (fun high v => b.size * high + v) 0 := by
    intro values
    simp [Nat.ofDigits_eq_foldr, Nat.add_comm]
  constructor
  · rintro ⟨nonempty, values, each, rfl⟩
    exact ⟨nonempty, b.go_eq_some_iff.mpr ⟨values, each, highest_first values⟩⟩
  · rintro ⟨nonempty, read⟩
    obtain ⟨values, each, rfl⟩ := b.go_eq_some_iff.mp read
    exact ⟨nonempty, values, each, (highest_first values).symm⟩

/-- A text in which every character is a digit is read. -/
theorem exists_value (b : Base) (known : ∀ c ∈ digits, (b.digitValue? c).isSome = true) :
    ∃ n, value? b.size b.digitValue? digits = some n := by
  rw [value?]
  generalize 0 = acc
  induction digits generalizing acc with
  | nil => exact ⟨acc, rfl⟩
  | cons c digits ih =>
    obtain ⟨first, others⟩ := List.forall_mem_cons.mp known
    obtain ⟨v, digit⟩ := Option.isSome_iff_exists.mp first
    obtain ⟨n, read⟩ := ih others (b.size * acc + v)
    exact ⟨n, by simp only [value?.go, digit, read]⟩

theorem minus_splitSign (text : List Char) :
    minus (splitSign text).1 ++ (splitSign text).2 = text := by
  unfold splitSign
  split <;> rfl

theorem splitSign_minus {b : Base} (numeral : IsNumeral b.size digits n) (negative : Bool) :
    splitSign (minus negative ++ digits) = (negative, digits) := by
  cases negative with
  | true => rfl
  | false => exact splitSign_of_value? b.digitValue?_minus (b.isNumeral_iff.mp numeral).2

theorem splitSign_map_toUpper (text : List Char) :
    splitSign (text.map Char.toUpper) =
      ((splitSign text).1, (splitSign text).2.map Char.toUpper) := by
  have sign : ∀ c : Char, c.toUpper = '-' → c = '-' :=
    toUpper_induction (P := fun c d => d = '-' → c = '-') (fun _ => id) (by decide)
  cases text with
  | nil => rfl
  | cons c rest =>
    by_cases signed : c = '-'
    · rw [signed]
      rfl
    · have signed' : c.toUpper ≠ '-' := fun same => signed (sign c same)
      simp [splitSign, signed, signed']

theorem word?_map_toUpper (b : Base) (text : List Char) :
    word? b.size b.digitValue? (text.map Char.toUpper) = word? b.size b.digitValue? text := by
  simp only [word?, splitSign_map_toUpper, List.isEmpty_map,
    value?_map_toUpper b.digitValue?_toUpper]

/-- A sign and digits are read as the word of the number, if it is in range. -/
theorem word?_of_numeral {b : Base} (numeral : IsNumeral b.size digits n) (negative : Bool) :
    word? b.size b.digitValue? (minus negative ++ digits) =
      if n ≤ 65535 then some (signedWord negative n) else none := by
  obtain ⟨nonempty, value⟩ := b.isNumeral_iff.mp numeral
  have nonempty' : digits.isEmpty = false := List.isEmpty_eq_false_iff.mpr nonempty
  have bound : n < UInt16.size ↔ n ≤ 65535 := Nat.lt_succ_iff
  simp only [word?, splitSign_minus numeral, nonempty', value, bound, Bool.false_eq_true, if_false]
  rfl

/-- What is read as a word has a sign and digits. -/
theorem exists_numeral_of_word? {b : Base} (read : word? b.size b.digitValue? text = some w) :
    ∃ negative digits n, text = minus negative ++ digits ∧ IsNumeral b.size digits n := by
  unfold word? at read
  dsimp only at read
  split at read
  · cases read
  · next nonempty =>
    split at read
    · next n value =>
      exact ⟨_, _, n, (minus_splitSign text).symm,
        b.isNumeral_iff.mpr ⟨List.isEmpty_eq_false_iff.mp (by simpa using nonempty), value⟩⟩
    · cases read

end Base

variable {token rest : List Char} {negative : Bool} {n : Nat} {w : Word}

theorem classify_hash (rest : List Char) :
    classify (('#' :: rest).map Char.toUpper) = .ofWord? (word? 10 decimalValue? rest) :=
  congrArg Class.ofWord? (Base.decimal.word?_map_toUpper rest)

theorem classify_hexadecimal_mark {mark : Char} (marked : mark ∈ Base.hexadecimal.marks)
    (rest : List Char) :
    classify ((mark :: rest).map Char.toUpper) =
      if (splitSign rest).2.isEmpty ||
          (splitSign rest).2.any fun c => (StringLiteral.hexValue? c).isNone then .name
      else .ofWord? (word? 16 StringLiteral.hexValue? rest) := by
  have upper : mark.toUpper = 'X' := by
    simp only [Base.marks, List.mem_cons, List.not_mem_nil, or_false] at marked
    rcases marked with rfl | rfl <;> rfl
  have word := Base.hexadecimal.word?_map_toUpper rest
  rw [Base.size, Base.digitValue?] at word
  rw [List.map_cons, upper, classify, Base.splitSign_map_toUpper, word]
  simp [hexValue?_toUpper]

/-- A number of any size is classified by its range. -/
theorem classify_of_form {b : Base} (form : b.Form token negative n) :
    classify (token.map Char.toUpper) =
      if n ≤ 65535 then .number (signedWord negative n) else .malformed := by
  obtain ⟨mark, digits, marked, rfl, numeral⟩ := form
  have word : Class.ofWord? (word? b.size b.digitValue? (minus negative ++ digits)) =
      if n ≤ 65535 then .number (signedWord negative n) else .malformed := by
    rw [Base.word?_of_numeral numeral]
    split <;> rfl
  cases b with
  | decimal =>
    cases List.mem_singleton.mp marked
    exact (classify_hash _).trans word
  | hexadecimal =>
    rw [classify_hexadecimal_mark marked, if_neg]
    · exact word
    · obtain ⟨nonempty, value⟩ := Base.hexadecimal.isNumeral_iff.mp numeral
      rw [Base.splitSign_minus numeral, Bool.or_eq_true, List.isEmpty_iff, List.any_eq_true]
      rintro (empty | ⟨c, present, unknown⟩)
      · exact nonempty empty
      · have known := isSome_of_value? value c present
        rw [Base.digitValue?, Option.isNone_iff_eq_none.mp unknown] at known
        cases known

/-- Any token of another form is a name, unless it has the mark of a decimal number. -/
theorem classify_of_not_form (formless : ∀ (b : Base) negative n, ¬b.Form token negative n) :
    classify (token.map Char.toUpper) = if token.head? = some '#' then .malformed else .name := by
  cases token with
  | nil => rfl
  | cons c rest =>
    rw [List.head?_cons]
    by_cases hash : c = '#'
    · rw [hash, classify_hash, if_pos rfl]
      cases read : word? 10 decimalValue? rest with
      | none => rfl
      | some w =>
        obtain ⟨negative, digits, n, rfl, numeral⟩ := Base.exists_numeral_of_word? (b := .decimal) read
        exact absurd ⟨c, digits, hash ▸ List.mem_singleton_self _, rfl, numeral⟩
          (formless .decimal negative n)
    · rw [if_neg (by simpa using hash)]
      by_cases marked : c ∈ Base.hexadecimal.marks
      · rw [classify_hexadecimal_mark marked, if_pos]
        -- If all characters behind the sign were digits, the token would be of the form.
        rw [Bool.or_eq_true, List.isEmpty_iff, List.any_eq_true]
        by_contra known
        obtain ⟨nonempty, digits⟩ := not_or.mp known
        have digits' : ∀ d ∈ (splitSign rest).2,
            (Base.hexadecimal.digitValue? d).isSome = true := by
          intro d present
          rw [Option.isSome_iff_ne_none]
          intro unknown
          exact digits ⟨d, present, Option.isNone_iff_eq_none.mpr unknown⟩
        obtain ⟨n, value⟩ := Base.hexadecimal.exists_value digits'
        refine formless .hexadecimal (splitSign rest).1 n ⟨c, _, marked, ?_,
          Base.hexadecimal.isNumeral_iff.mpr ⟨nonempty, value⟩⟩
        rw [Base.minus_splitSign]
      · have upper : ∀ c : Char, (c.toUpper = '#' → c = '#') ∧
            (c.toUpper = 'X' → c ∈ Base.hexadecimal.marks) :=
          toUpper_induction
            (P := fun c d => (d = '#' → c = '#') ∧ (d = 'X' → c ∈ Base.hexadecimal.marks))
            (fun c => ⟨id, fun same => by rw [same]; decide⟩) (by decide)
        rw [List.map_cons, classify]
        · exact fun _ same => hash ((upper c).1 (List.cons.inj same).1)
        · exact fun _ same => marked ((upper c).2 (List.cons.inj same).1)

theorem classify_eq_number_iff :
    classify (token.map Char.toUpper) = .number w ↔ IsLiteral token w := by
  constructor
  · intro classified
    by_cases formed : ∃ (b : Base) (negative : Bool) (n : Nat), b.Form token negative n
    · obtain ⟨b, negative, n, form⟩ := formed
      rw [classify_of_form form] at classified
      split at classified
      · next fits =>
        cases classified
        exact ⟨b, negative, n, form, fits, rfl⟩
      · cases classified
    · rw [classify_of_not_form (by simpa using formed)] at classified
      split at classified <;> cases classified
  · rintro ⟨b, negative, n, form, fits, rfl⟩
    rw [classify_of_form form, if_pos fits]

theorem classify_eq_malformed_iff :
    classify (token.map Char.toUpper) = .malformed ↔ IsMalformed token := by
  have decimal_head : ∀ {negative n}, Base.decimal.Form token negative n →
      token.head? = some '#' := by
    rintro negative n ⟨mark, digits, marked, rfl, -⟩
    rw [List.head?_cons, List.mem_singleton.mp marked]
  constructor
  · intro classified
    have unread : ∀ w, ¬IsLiteral token w := by
      intro w literal
      cases classified.symm.trans (classify_eq_number_iff.mpr literal)
    by_cases formed : ∃ (b : Base) (negative : Bool) (n : Nat), b.Form token negative n
    · obtain ⟨b, negative, n, form⟩ := formed
      cases b with
      | decimal => exact .inl ⟨decimal_head form, unread⟩
      | hexadecimal =>
        refine .inr ⟨negative, n, form, ?_⟩
        by_contra fits
        exact unread _ ⟨.hexadecimal, negative, n, form, Nat.le_of_not_lt fits, rfl⟩
    · rw [classify_of_not_form (by simpa using formed)] at classified
      split at classified
      · next hash => exact .inl ⟨hash, unread⟩
      · cases classified
  · rintro (⟨hash, unread⟩ | ⟨negative, n, form, large⟩)
    · by_cases formed : ∃ (b : Base) (negative : Bool) (n : Nat), b.Form token negative n
      · obtain ⟨b, negative, n, form⟩ := formed
        rw [classify_of_form form, if_neg]
        intro fits
        exact unread _ ⟨b, negative, n, form, fits, rfl⟩
      · rw [classify_of_not_form (by simpa using formed), if_pos hash]
    · rw [classify_of_form form, if_neg (Nat.not_le_of_lt large)]

end NumberToken

/-- The token is the letter of registers, in either case, and the digit of this one. -/
def Register.Names (token : List Char) (r : Register) : Prop :=
  token = ['R', r.digit] ∨ token = ['r', r.digit]

theorem Register.ofName?_eq_some_iff {token : List Char} {r : Register} :
    ofName? token = some r ↔ Names token r := by
  constructor
  · intro named
    unfold ofName? at named
    split at named
    · next letter d =>
      split at named
      · next range =>
        cases named
        obtain ⟨first, low, high⟩ := range
        have low' : 48 ≤ d.toNat := low
        have high' : d.toNat ≤ 55 := high
        have table : ∀ n < 8, Char.ofNat (48 + n) = digit ⟨BitVec.ofNat 3 n⟩ := by decide
        have written : Char.ofNat (48 + (d.toNat - 48)) = _ := table (d.toNat - 48) (by omega)
        rw [Nat.add_sub_cancel' low', Char.ofNat_toNat] at written
        rcases first with rfl | rfl
        · exact .inl (congrArg (['R', ·]) written)
        · exact .inr (congrArg (['r', ·]) written)
      · cases named
    · cases named
  · obtain ⟨index⟩ := r
    have table : ∀ i : BitVec 3, ofName? ['R', digit ⟨i⟩] = some ⟨i⟩ ∧
        ofName? ['r', digit ⟨i⟩] = some ⟨i⟩ := by decide
    rintro (rfl | rfl)
    · exact (table index).1
    · exact (table index).2

inductive Denotes (token : List Char) : Operand → Prop
  | register {r : Register} (named : Register.Names token r) : Denotes token (.register r)
  | number {w : Word} (literal : NumberToken.IsLiteral token w) : Denotes token (.number w)
  | label (unnamed : ∀ r, ¬Register.Names token r)
      (unnumbered : ∀ w, ¬NumberToken.IsLiteral token w)
      (formed : ¬NumberToken.IsMalformed token) : Denotes token (.label (Cursor.foldCase token))

namespace Cursor

variable {c : Cursor} {token rest : List Char}

/-- No register has the form of a number. -/
theorem classify_of_names {r : Register} (named : Register.Names token r) :
    NumberToken.classify (token.map Char.toUpper) = .name := by
  rcases named with rfl | rfl <;> rfl

section

variable (isToken : IsToken token) (unquoted : token.head? ≠ some '"') (stops : Stops rest)
  (ahead : c.rest = token ++ rest)
include isToken unquoted stops ahead

/-- A token is read as what it stands for, unless it is a malformed number. -/
theorem operand_eq_ok_iff {x : Operand} {next : Cursor} :
    c.operand = .ok (x, next) ↔ Denotes token x ∧ next = c.moveTo rest := by
  rw [operand_of_token isToken unquoted stops ahead]
  constructor
  · intro read
    split at read
    · next r _ named =>
      cases read
      exact ⟨.register (Register.ofName?_eq_some_iff.mp named), rfl⟩
    · next w unnamed classified =>
      cases read
      exact ⟨.number (NumberToken.classify_eq_number_iff.mp classified), rfl⟩
    · cases read
    · next unnamed classified =>
      cases read
      refine ⟨.label ?_ ?_ ?_, rfl⟩
      · intro r named
        cases unnamed.symm.trans (Register.ofName?_eq_some_iff.mpr named)
      · intro w literal
        cases classified.symm.trans (NumberToken.classify_eq_number_iff.mpr literal)
      · intro malformed
        cases classified.symm.trans (NumberToken.classify_eq_malformed_iff.mpr malformed)
  · rintro ⟨denotes, rfl⟩
    cases denotes with
    | register named => simp only [Register.ofName?_eq_some_iff.mpr named]
    | number literal =>
      have classified := NumberToken.classify_eq_number_iff.mpr literal
      cases named : Register.ofName? token with
      | none => simp only [classified]
      | some r =>
        cases classified.symm.trans (classify_of_names (Register.ofName?_eq_some_iff.mp named))
    | label unnamed unnumbered formed =>
      cases named : Register.ofName? token with
      | some r => exact absurd (Register.ofName?_eq_some_iff.mp named) (unnamed r)
      | none =>
        cases classified : NumberToken.classify (token.map Char.toUpper) with
        | number w =>
          exact absurd (NumberToken.classify_eq_number_iff.mp classified) (unnumbered w)
        | malformed => exact absurd (NumberToken.classify_eq_malformed_iff.mp classified) formed
        | name => rfl

theorem operand_eq_malformedNumber_iff :
    c.operand = .error ⟨.malformedNumber (String.ofList token),
      ⟨c.offset, byteLength token⟩⟩ ↔ NumberToken.IsMalformed token := by
  rw [operand_of_token isToken unquoted stops ahead, ← NumberToken.classify_eq_malformed_iff]
  constructor
  · intro failed
    split at failed
    · cases failed
    · cases failed
    · assumption
    · cases failed
  · intro classified
    cases named : Register.ofName? token with
    | none => simp only [classified]
    | some r =>
      cases classified.symm.trans (classify_of_names (Register.ofName?_eq_some_iff.mp named))

end

/-- A token is a register, a number, a malformed number or else a label, each exactly when it is of
that form. The literals that are written for a word are among its numbers. -/
theorem operand_reads_token :
    (∀ (c : Cursor) (token rest : List Char), IsToken token → token.head? ≠ some '"' →
      Stops rest → c.rest = token ++ rest →
      (∀ r, c.operand = .ok (.register r, ⟨c.offset + byteLength token, rest⟩) ↔
        Register.Names token r) ∧
      (∀ w, c.operand = .ok (.number w, ⟨c.offset + byteLength token, rest⟩) ↔
        NumberToken.IsLiteral token w) ∧
      (c.operand = .error ⟨.malformedNumber (String.ofList token),
          ⟨c.offset, byteLength token⟩⟩ ↔ NumberToken.IsMalformed token) ∧
      (c.operand = .ok (.label (foldCase token), ⟨c.offset + byteLength token, rest⟩) ↔
        (∀ r, ¬Register.Names token r) ∧ (∀ w, ¬NumberToken.IsLiteral token w) ∧
          ¬NumberToken.IsMalformed token)) ∧
    (∀ (w : Word) (mode : LiteralMode), ∀ text ∈ [mode.unsigned w, mode.signed w],
      ∀ (c : Cursor) (rest : List Char), Stops rest → c.rest = text.toList ++ rest →
        c.operand = .ok (.number w, ⟨c.offset + byteLength text.toList, rest⟩)) := by
  constructor
  · intro c token rest isToken unquoted stops ahead
    have read : ∀ x, c.operand = .ok (x, c.moveTo rest) ↔
        Denotes token x ∧ c.moveTo rest = c.moveTo rest :=
      fun x => operand_eq_ok_iff isToken unquoted stops ahead
    rw [← moveTo_of_append ahead]
    refine ⟨fun r => ?_, fun w => ?_,
      operand_eq_malformedNumber_iff isToken unquoted stops ahead, ?_⟩
    · rw [read]
      constructor
      · rintro ⟨denotes, -⟩
        cases denotes with
        | register named => exact named
      · intro named
        exact ⟨.register named, rfl⟩
    · rw [read]
      constructor
      · rintro ⟨denotes, -⟩
        cases denotes with
        | number literal => exact literal
      · intro literal
        exact ⟨.number literal, rfl⟩
    · rw [read]
      constructor
      · rintro ⟨denotes, -⟩
        cases denotes with
        | label unnamed unnumbered formed => exact ⟨unnamed, unnumbered, formed⟩
      · rintro ⟨unnamed, unnumbered, formed⟩
        exact ⟨.label unnamed unnumbered formed, rfl⟩
  · intro w mode text written c rest stops ahead
    have literal : LiteralMode.Literal w text.toList := by
      simp only [List.mem_cons, List.not_mem_nil, or_false] at written
      rcases written with rfl | rfl
      · exact mode.literal_unsigned w
      · exact mode.literal_signed w
    rw [literal.readsAs.read c rest stops ahead, moveTo_of_append ahead]

/-- A negated number with zeros in front of it, a number out of range, a label that begins like a
number, and the literal of the word whose sign bit alone is set. -/
theorem tokens_read :
    (start "#-0065535,".toList).operand = .ok (.number 1, ⟨9, [',']⟩) ∧
    (start "x00010000".toList).operand = .error ⟨.malformedNumber "x00010000", ⟨0, 9⟩⟩ ∧
    (start "xLoop".toList).operand = .ok (.label "XLOOP", ⟨5, []⟩) ∧
    (start "#-32768".toList).operand = .ok (.number 0x8000, ⟨7, []⟩) := by
  have last : Stops [] := nofun
  have comma : Stops [','] := by
    intro d first
    cases first
    rfl
  refine ⟨?_, ?_, ?_, ?_⟩
  · have numeral : NumberToken.IsNumeral 10 "0065535".toList 65535 :=
      NumberToken.Base.decimal.isNumeral_iff.mpr ⟨by decide, rfl⟩
    exact ((operand_reads_token.1 _ "#-0065535".toList [','] (.of_all rfl rfl) (by decide) comma
      rfl).2.1 1).mpr ⟨.decimal, true, 65535, ⟨'#', _, by decide, rfl, numeral⟩, le_rfl, rfl⟩
  · have numeral : NumberToken.IsNumeral 16 "00010000".toList 65536 :=
      NumberToken.Base.hexadecimal.isNumeral_iff.mpr ⟨by decide, rfl⟩
    exact (operand_reads_token.1 _ "x00010000".toList [] (.of_all rfl rfl) (by decide) last
      rfl).2.2.1.mpr (.inr ⟨false, 65536, ⟨'x', _, by decide, rfl, numeral⟩, by decide⟩)
  · refine (operand_reads_token.1 _ "xLoop".toList [] (.of_all rfl rfl) (by decide) last
      rfl).2.2.2.mpr ⟨?_, ?_, ?_⟩
    · intro r named
      cases Register.ofName?_eq_some_iff.mpr named
    · intro w literal
      cases NumberToken.classify_eq_number_iff.mpr literal
    · intro malformed
      cases NumberToken.classify_eq_malformed_iff.mpr malformed
  · exact operand_reads_token.2 0x8000 .dec "#-32768" (by decide) _ [] last rfl

end Cursor

end LC3
