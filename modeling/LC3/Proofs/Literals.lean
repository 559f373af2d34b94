import LC3.Instruction.Listing
import LC3.Proofs.Names

/-!
# Literals read back

The digits of a number are read as the number again, in either base and after folding to upper
case. So the literal of a word is read as the word in either mode, also when it shows a sign, and
the name of a register as the register.
-/

namespace LC3

namespace NumberToken

/-- The digits of this base are read, also in upper case, and a minus sign is no digit. -/
structure ReadsDigits (base : Nat) (digitValue? : Char → Option Nat) : Prop where
  one_lt : 1 < base
  digit : ∀ d < base, digitValue? (Nat.digitChar d).toUpper = some d
  minus : digitValue? '-' = none

theorem readsDigits_decimal : ReadsDigits 10 decimalValue? := ⟨by decide, by decide, rfl⟩

theorem readsDigits_hexadecimal : ReadsDigits 16 StringLiteral.hexValue? :=
  ⟨by decide, by decide, rfl⟩

theorem exists_digit_of_mem_toDigits {base n : Nat} {c : Char} (one_lt : 1 < base)
    (present : c ∈ Nat.toDigits base n) : ∃ d < base, c = Nat.digitChar d := by
  induction n using Nat.strongRecOn with
  | ind n ih =>
    by_cases small : n < base
    · rw [Nat.toDigits_of_lt_base small, List.mem_singleton] at present
      exact ⟨n, small, present⟩
    · have large : base ≤ n := Nat.le_of_not_lt small
      rw [Nat.toDigits_of_base_le one_lt large, List.mem_append, List.mem_singleton] at present
      rcases present with earlier | last
      · exact ih _ (Nat.div_lt_self (by omega) one_lt) earlier
      · exact ⟨n % base, Nat.mod_lt n (by omega), last⟩

theorem go_append (base : Nat) (digitValue? : Char → Option Nat) (acc : Nat) (xs ys : List Char) :
    value?.go base digitValue? acc (xs ++ ys) =
      (value?.go base digitValue? acc xs).bind (value?.go base digitValue? · ys) := by
  induction xs generalizing acc with
  | nil => rfl
  | cons x xs ih =>
    simp only [List.cons_append, value?.go]
    split
    · exact ih _
    · rfl

variable {base : Nat} {digitValue? : Char → Option Nat} {n : Nat}

/-- The digits of a number are read as the number. -/
theorem ReadsDigits.value?_toDigits (reads : ReadsDigits base digitValue?) (n : Nat) :
    value? base digitValue? ((Nat.toDigits base n).map Char.toUpper) = some n := by
  have one_lt := reads.one_lt
  induction n using Nat.strongRecOn with
  | ind n ih =>
    by_cases small : n < base
    · simp only [Nat.toDigits_of_lt_base small, List.map_cons, List.map_nil, value?, value?.go,
        reads.digit n small, Nat.mul_zero, Nat.zero_add]
    · have large : base ≤ n := Nat.le_of_not_lt small
      have shorter := ih _ (Nat.div_lt_self (by omega) one_lt)
      have last := reads.digit _ (Nat.mod_lt n (by omega))
      rw [value?] at shorter ⊢
      rw [Nat.toDigits_of_base_le one_lt large, List.map_append, go_append, shorter]
      simp only [List.map_cons, List.map_nil, Option.bind_some, value?.go, last,
        Nat.div_add_mod]

theorem isSome_of_value? {digits : List Char} (value : value? base digitValue? digits = some n) :
    ∀ c ∈ digits, (digitValue? c).isSome = true := by
  rw [value?] at value
  generalize 0 = acc at value
  induction digits generalizing acc with
  | nil => exact nofun
  | cons c digits ih =>
    rw [value?.go] at value
    split at value
    · next d digit => exact List.forall_mem_cons.mpr ⟨by rw [digit]; rfl, ih _ value⟩
    · cases value

section

variable {digits : List Char} (minus : digitValue? '-' = none) (nonempty : digits.isEmpty = false)
  (value : value? base digitValue? digits = some n) (small : n < 65536)
include minus value

theorem splitSign_of_value? : splitSign digits = (false, digits) := by
  unfold splitSign
  split
  · next rest =>
    have digit := isSome_of_value? value '-' List.mem_cons_self
    rw [minus] at digit
    cases digit
  · rfl

include nonempty small

theorem word?_of_value? : word? base digitValue? digits = some (BitVec.ofNat 16 n) := by
  have fits : n < UInt16.size := small
  simp only [word?, splitSign_of_value? minus value, nonempty, value, if_pos fits,
    Bool.false_eq_true, if_false]

omit minus

theorem word?_minus_of_value? :
    word? base digitValue? ('-' :: digits) = some (-BitVec.ofNat 16 n) := by
  have fits : n < UInt16.size := small
  simp only [word?, splitSign, nonempty, value, if_pos fits, Bool.false_eq_true, if_false, if_true]

end

/-- Hexadecimal digits of either case that stand for the word, with any zeros in front of them. -/
structure IsHexadecimal (digits : List Char) (w : Word) : Prop where
  nonempty : digits ≠ []
  value : value? 16 StringLiteral.hexValue? digits = some w.toNat

theorem hexValue?_toUpper (c : Char) :
    StringLiteral.hexValue? c.toUpper = StringLiteral.hexValue? c :=
  toUpper_induction (P := fun c d => StringLiteral.hexValue? d = StringLiteral.hexValue? c)
    (fun _ => rfl) (by decide) c

theorem value?_map_toUpper (folds : ∀ c : Char, digitValue? c.toUpper = digitValue? c)
    (digits : List Char) :
    value? base digitValue? (digits.map Char.toUpper) = value? base digitValue? digits := by
  rw [value?]
  generalize 0 = acc
  induction digits generalizing acc with
  | nil => rfl
  | cons c digits ih => simp only [List.map_cons, value?.go, folds, ih]

theorem IsHexadecimal.toUpper {digits : List Char} {w : Word} (numeral : IsHexadecimal digits w) :
    IsHexadecimal (digits.map Char.toUpper) w where
  nonempty := by simpa using numeral.nonempty
  value := by rw [value?_map_toUpper hexValue?_toUpper, numeral.value]

theorem isHexadecimal_upper (w : Word) : IsHexadecimal (Hex.upper w.toNat) w :=
  ⟨by simp [Hex.upper], readsDigits_hexadecimal.value?_toDigits _⟩

theorem isHexadecimal_toDigits (w : Word) : IsHexadecimal (Nat.toDigits 16 w.toNat) w :=
  ⟨by simp, by rw [← value?_map_toUpper hexValue?_toUpper,
    readsDigits_hexadecimal.value?_toDigits]⟩

theorem IsHexadecimal.endsToken {digits : List Char} {w : Word} (numeral : IsHexadecimal digits w)
    {c : Char} (present : c ∈ digits) : endsToken c = false := by
  have digit := isSome_of_value? numeral.value c present
  rw [← Bool.not_eq_true]
  intro ends
  simp only [LC3.endsToken, isBlank, Bool.or_eq_true, beq_iff_eq] at ends
  rcases ends with ((((rfl | rfl) | rfl) | rfl) | rfl) | rfl <;> cases digit

theorem classify_hexadecimal {digits : List Char} {w : Word} (numeral : IsHexadecimal digits w) :
    classify ('X' :: digits) = .number w := by
  have nonempty : digits.isEmpty = false := List.isEmpty_eq_false_iff.mpr numeral.nonempty
  have known : digits.any (fun c => (StringLiteral.hexValue? c).isNone) = false := by
    rw [List.any_eq_false]
    intro c present
    rw [Option.isNone_eq_false_iff.mpr (isSome_of_value? numeral.value c present)]
    decide
  have minus := readsDigits_hexadecimal.minus
  simp only [classify, splitSign_of_value? minus numeral.value, nonempty, known, Bool.or_self,
    Bool.false_eq_true, if_false, word?_of_value? minus nonempty numeral.value w.isLt,
    BitVec.ofNat_toNat, BitVec.setWidth_eq, Class.ofWord?]

theorem isEmpty_digits (base n : Nat) :
    ((Nat.toDigits base n).map Char.toUpper).isEmpty = false := by
  simp

theorem classify_decimal (w : Word) :
    classify ('#' :: (Nat.toDigits 10 w.toNat).map Char.toUpper) = .number w := by
  have value := readsDigits_decimal.value?_toDigits w.toNat
  simp only [classify, word?_of_value? readsDigits_decimal.minus (isEmpty_digits 10 _) value w.isLt,
    BitVec.ofNat_toNat, BitVec.setWidth_eq, Class.ofWord?]

theorem classify_negative (w : Word) :
    classify ('#' :: '-' :: (Nat.toDigits 10 (-w).toNat).map Char.toUpper) = .number w := by
  have value := readsDigits_decimal.value?_toDigits (-w).toNat
  simp only [classify, word?_minus_of_value? (isEmpty_digits 10 _) value (-w).isLt,
    BitVec.ofNat_toNat, BitVec.setWidth_eq, BitVec.neg_neg, Class.ofWord?]

end NumberToken

/-- The text is a token that is read as the operand. -/
def Operand.ReadFrom (x : Operand) (text : String) : Prop :=
  IsToken text.toList ∧ Spells text.toList x

theorem Operand.ReadFrom.readsAs {x : Operand} {text : String} (readFrom : x.ReadFrom text) :
    ReadsAs text.toList x := readFrom.2.readsAs readFrom.1

theorem Register.readFrom_name (r : Register) : (Operand.register r).ReadFrom r.name := by
  obtain ⟨index⟩ := r
  have table : ∀ i : BitVec 3, Register.ofName? (Register.name ⟨i⟩).toList = some ⟨i⟩ ∧
      (Register.name ⟨i⟩).toList.isEmpty = false ∧
      (Register.name ⟨i⟩).toList.all (!endsToken ·) = true := by decide
  obtain ⟨named, nonempty, unbroken⟩ := table index
  exact ⟨.of_all nonempty unbroken, .register named⟩

namespace LiteralMode

/-- The texts that are written for literals, in listings and in printed lines. -/
inductive Literal : Word → List Char → Prop
  | hexadecimal {w : Word} {digits : List Char} (numeral : NumberToken.IsHexadecimal digits w) :
      Literal w ('x' :: digits)
  | decimal (w : Word) : Literal w ('#' :: Nat.toDigits 10 w.toNat)
  | negative (w : Word) : Literal w ('#' :: '-' :: Nat.toDigits 10 (-w).toNat)

theorem literal_unsigned (mode : LiteralMode) (w : Word) : Literal w (mode.unsigned w).toList := by
  cases mode with
  | hex =>
    simp only [unsigned, hexText, String.toList_ofList]
    exact .hexadecimal (NumberToken.isHexadecimal_toDigits w)
  | dec =>
    simp only [unsigned, String.toList_ofList]
    exact .decimal w

theorem literal_signed (mode : LiteralMode) (w : Word) : Literal w (mode.signed w).toList := by
  cases mode with
  | hex =>
    simp only [signed, hexText, String.toList_ofList]
    exact .hexadecimal (NumberToken.isHexadecimal_toDigits w)
  | dec =>
    simp only [signed]
    split <;> rw [String.toList_ofList]
    · exact .negative w
    · exact .decimal w

theorem endsToken_digitChar : ∀ d < 16, endsToken (Nat.digitChar d) = false := by decide

/-- A literal is read as the word that it was written for. -/
theorem Literal.classify {w : Word} {text : List Char} (literal : Literal w text) :
    NumberToken.classify (text.map Char.toUpper) = .number w := by
  cases literal with
  | hexadecimal numeral => exact NumberToken.classify_hexadecimal numeral.toUpper
  | decimal => exact NumberToken.classify_decimal w
  | negative => exact NumberToken.classify_negative w

theorem endsToken_of_mem_toDigits {base n : Nat} {c : Char} (one_lt : 1 < base) (small : base ≤ 16)
    (present : c ∈ Nat.toDigits base n) : endsToken c = false := by
  obtain ⟨d, inside, rfl⟩ := NumberToken.exists_digit_of_mem_toDigits one_lt present
  exact endsToken_digitChar d (Nat.lt_of_lt_of_le inside small)

theorem Literal.endsToken {w : Word} {text : List Char} (literal : Literal w text) {c : Char}
    (present : c ∈ text) : endsToken c = false := by
  cases literal with
  | hexadecimal numeral =>
    rcases List.mem_cons.mp present with rfl | digit
    · rfl
    · exact numeral.endsToken digit
  | decimal =>
    rcases List.mem_cons.mp present with rfl | digit
    · rfl
    · exact endsToken_of_mem_toDigits (by decide) (by decide) digit
  | negative =>
    rcases List.mem_cons.mp present with rfl | later
    · rfl
    · rcases List.mem_cons.mp later with rfl | digit
      · rfl
      · exact endsToken_of_mem_toDigits (by decide) (by decide) digit

/-- No literal is the name of a register. -/
theorem Literal.ofName?_eq_none {w : Word} {text : List Char} (literal : Literal w text) :
    Register.ofName? text = none := by
  have first : ∀ (c : Char) (rest : List Char), c ≠ 'R' → c ≠ 'r' →
      Register.ofName? (c :: rest) = none := by
    intro c rest upper lower
    unfold Register.ofName?
    split
    · next letter d same =>
      cases same
      rw [if_neg]
      rintro ⟨rfl | rfl, -⟩
      · exact upper rfl
      · exact lower rfl
    · rfl
  cases literal <;> exact first _ _ (by decide) (by decide)

theorem Literal.isToken {w : Word} {text : List Char} (literal : Literal w text) : IsToken text :=
  ⟨by cases literal <;> exact List.cons_ne_nil _ _, fun _ present => literal.endsToken present⟩

theorem Literal.spells {w : Word} {text : List Char} (literal : Literal w text) :
    Spells text (.number w) := .number literal.ofName?_eq_none literal.classify

theorem Literal.readFrom {w : Word} {text : String} (literal : Literal w text.toList) :
    (Operand.number w).ReadFrom text := ⟨literal.isToken, literal.spells⟩

theorem Literal.readsAs {w : Word} {text : List Char} (literal : Literal w text) :
    ReadsAs text (.number w) := literal.spells.readsAs literal.isToken

end LiteralMode

end LC3
