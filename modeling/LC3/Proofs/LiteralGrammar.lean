import LC3.Proofs.Escapes

/-!
# The grammar of string literals

A literal is a sequence of items between double quotes. An item is a character that stands for
itself, an escape with a letter, or an escape with a code. The reader accepts exactly the texts that
begin with such a literal, gives the characters of the items in their order, and stops right behind
the closing quote. A code has two hexadecimal digits, but a plus sign is taken in place of the first.
-/

namespace LC3

namespace StringLiteral

/-- The letters of the escapes, with the characters that they stand for. -/
def letters : List (Char × Char) :=
  [('n', '\n'), ('t', '\t'), ('r', '\r'), ('a', '\x07'), ('b', '\x08'), ('f', '\x0c'),
    ('v', '\x0b'), ('e', '\x1b'), ('0', '\x00'), ('\\', '\\'), ('"', '"'), ('\'', '\'')]

/-- The character is the hexadecimal digit of the number, in either case. -/
structure IsHexDigit (c : Char) (v : Nat) : Prop where
  small : v < 16
  written : c = Nat.digitChar v ∨ c = (Nat.digitChar v).toUpper

/-- What stands for one character of a literal. -/
inductive Item
  | plain (c : Char) (ordinary : c ≠ '"' ∧ c ≠ '\\')
  | letter (l c : Char) (known : (l, c) ∈ letters)
  | code (high low : Char) (h l : Nat) (first : IsHexDigit high h) (second : IsHexDigit low l)
  | plusCode (low : Char) (l : Nat) (digit : IsHexDigit low l)

namespace Item

def text : Item → List Char
  | .plain c _ => [c]
  | .letter l _ _ => ['\\', l]
  | .code high low .. => ['\\', 'x', high, low]
  | .plusCode low .. => ['\\', 'x', '+', low]

def char : Item → Char
  | .plain c _ => c
  | .letter _ c _ => c
  | .code _ _ h l _ _ => Char.ofNat (16 * h + l)
  | .plusCode _ l _ => Char.ofNat l

def string (items : List Item) : String := String.ofList (items.map char)

def isPlusCode : Item → Bool
  | .plusCode .. => true
  | _ => false

def literal (items : List Item) : List Char := '"' :: items.flatMap text ++ ['"']

end Item

theorem escaped?_eq_some_iff {l c : Char} : escaped? l = some c ↔ (l, c) ∈ letters := by
  constructor
  · intro known
    unfold escaped? at known
    split at known <;> cases known <;> decide
  · intro listed
    have table : ∀ p ∈ letters, escaped? p.1 = some p.2 := by decide
    exact table (l, c) listed

/-- No hexadecimal digit is beyond `f`. -/
theorem toNat_lt_of_hexValue? {c : Char} {v : Nat} (value : hexValue? c = some v) :
    c.toNat < 128 := by
  have bound : ∀ d : Char, c ≤ d → d.toNat < 128 → c.toNat < 128 := by
    intro d le small
    exact Nat.lt_of_le_of_lt le small
  unfold hexValue? at value
  split at value
  · next range => exact bound '9' range.2 (by decide)
  · split at value
    · next range => exact bound 'f' range.2 (by decide)
    · split at value
      · next range => exact bound 'F' range.2 (by decide)
      · cases value

theorem hexValue?_eq_some_iff {c : Char} {v : Nat} : hexValue? c = some v ↔ IsHexDigit c v := by
  constructor
  · intro value
    have table : ∀ n < 128, ∀ v ∈ hexValue? (Char.ofNat n),
        v < 16 ∧ (Char.ofNat n = Nat.digitChar v ∨ Char.ofNat n = (Nat.digitChar v).toUpper) := by
      decide
    have found := table c.toNat (toNat_lt_of_hexValue? value)
    rw [Char.ofNat_toNat] at found
    obtain ⟨small, written⟩ := found v value
    exact ⟨small, written⟩
  · rintro ⟨small, rfl | rfl⟩
    · have table : ∀ v < 16, hexValue? (Nat.digitChar v) = some v := by decide
      exact table v small
    · exact NumberToken.readsDigits_hexadecimal.digit v small

/-- A code has two digits, or a plus sign and one. -/
theorem exists_item_of_coded? {high low c : Char} (known : coded? high low = some c) :
    ∃ i : Item, i.text = ['\\', 'x', high, low] ∧ i.char = c := by
  unfold coded? at known
  split at known
  · next h l first second =>
    cases known
    exact ⟨.code high low h l (hexValue?_eq_some_iff.mp first) (hexValue?_eq_some_iff.mp second),
      rfl, rfl⟩
  · next l first second =>
    split at known
    · next plus =>
      cases known
      exact ⟨.plusCode low l (hexValue?_eq_some_iff.mp second), by rw [plus]; rfl, rfl⟩
    · cases known
  · cases known

theorem Item.writes (i : Item) : Writes i.text i.char := by
  cases i with
  | plain c ordinary => exact writes_self ordinary.1 ordinary.2
  | letter l c known => exact writes_escape (escaped?_eq_some_iff.mpr known)
  | code high low h l first second =>
    apply writes_code
    simp only [coded?, hexValue?_eq_some_iff.mpr first, hexValue?_eq_some_iff.mpr second]
    rfl
  | plusCode low l digit =>
    apply writes_code
    have sign : hexValue? '+' = none := rfl
    simp only [coded?, sign, hexValue?_eq_some_iff.mpr digit, if_true]
    rfl

/-- Whatever is read as a literal begins with items and a closing quote. -/
theorem exists_items_of_body {text cs after : List Char} (closed : body text = some (cs, after)) :
    ∃ items : List Item, text = items.flatMap Item.text ++ '"' :: after ∧
      cs = items.map Item.char := by
  have next : ∀ (i : Item) {text cs : List Char},
      (∃ items : List Item, text = items.flatMap Item.text ++ '"' :: after ∧
        cs = items.map Item.char) →
      ∃ items : List Item, i.text ++ text = items.flatMap Item.text ++ '"' :: after ∧
        i.char :: cs = items.map Item.char := by
    rintro i _ _ ⟨items, rfl, rfl⟩
    exact ⟨i :: items, by rw [List.flatMap_cons, List.append_assoc], rfl⟩
  fun_induction body text generalizing cs <;> cases closed
  case case2 => exact ⟨[], rfl, rfl⟩
  case case3 high low rest c cs known quote ih read =>
    obtain ⟨i, shape, rfl⟩ := exists_item_of_coded? known
    have items := next i (ih read)
    rwa [shape] at items
  case case5 l rest single c cs known quote ih read =>
    exact next (.letter l c (escaped?_eq_some_iff.mp known)) (ih read)
  case case8 c rest quote backslash cs ih read =>
    exact next (.plain c ⟨quote, backslash⟩) (ih read)

theorem body_eq_some_iff {text cs after : List Char} : body text = some (cs, after) ↔
    ∃ items : List Item, text = items.flatMap Item.text ++ '"' :: after ∧
      cs = items.map Item.char := by
  constructor
  · exact exists_items_of_body
  · rintro ⟨items, rfl, rfl⟩
    rw [body_flatMap fun i _ => i.writes, body_quote, Option.map_some, List.append_nil]

/-- What was read as a literal is read as the same literal in front of any other text. -/
theorem prefix_of_body {text cs after : List Char} (closed : body text = some (cs, after)) :
    ∃ passed, text = passed ++ after ∧ ∀ rest, body (passed ++ rest) = some (cs, rest) := by
  obtain ⟨items, rfl, rfl⟩ := exists_items_of_body closed
  refine ⟨items.flatMap Item.text ++ ['"'], by simp, fun rest => ?_⟩
  exact body_eq_some_iff.mpr ⟨items, by simp, rfl⟩

end StringLiteral

namespace Cursor

open StringLiteral

variable {c : Cursor}

/-- A text that begins otherwise is neither a literal nor a malformed one. -/
theorem operand_of_unquoted (unquoted : ∀ text, c.rest ≠ '"' :: text) :
    (∀ s next, c.operand ≠ .ok (.string s, next)) ∧
      ∀ span, c.operand ≠ .error ⟨.malformedString, span⟩ := by
  rw [operand]
  split
  · next text quoted => exact absurd quoted (unquoted text)
  · grind

theorem moveTo_of_append {passed after : List Char} (shape : c.rest = passed ++ after) :
    c.moveTo after = ⟨c.offset + byteLength passed, after⟩ := by
  rw [moveTo, shape, byteLength_append, Nat.add_sub_cancel]

theorem rest_of_literal {items : List Item} {after : List Char}
    (shape : c.rest = Item.literal items ++ after) :
    c.rest = '"' :: (items.flatMap Item.text ++ '"' :: after) := by
  simpa [Item.literal] using shape

theorem operand_eq_string_iff {s : String} {next : Cursor} :
    c.operand = .ok (.string s, next) ↔
      ∃ items after, c.rest = Item.literal items ++ after ∧
        s = Item.string items ∧
        next = ⟨c.offset + byteLength (Item.literal items), after⟩ := by
  constructor
  · intro read
    by_cases quoted : ∃ text, c.rest = '"' :: text
    · obtain ⟨text, quoted⟩ := quoted
      rw [operand_of_quote quoted] at read
      split at read
      · next cs after closed =>
        cases read
        obtain ⟨items, rfl, rfl⟩ := exists_items_of_body closed
        have shape : c.rest = Item.literal items ++ after := by simp [quoted, Item.literal]
        exact ⟨items, after, shape, rfl, moveTo_of_append shape⟩
      · cases read
    · exact absurd read ((operand_of_unquoted (not_exists.mp quoted)).1 s next)
  · rintro ⟨items, after, shape, rfl, rfl⟩
    rw [operand_of_quote (rest_of_literal shape), body_eq_some_iff.mpr ⟨items, rfl, rfl⟩,
      ← moveTo_of_append shape]
    rfl

theorem operand_eq_malformed_iff :
    c.operand = .error ⟨.malformedString, ⟨c.offset, byteLength c.rest⟩⟩ ↔
      c.rest.head? = some '"' ∧ ∀ items after, c.rest ≠ Item.literal items ++ after := by
  constructor
  · intro failed
    refine ⟨?_, fun items after shape => ?_⟩
    · by_cases quoted : ∃ text, c.rest = '"' :: text
      · obtain ⟨text, quoted⟩ := quoted
        rw [quoted, List.head?_cons]
      · exact absurd failed ((operand_of_unquoted (not_exists.mp quoted)).2 _)
    · have read := operand_eq_string_iff.mpr ⟨items, after, shape, rfl, rfl⟩
      cases failed.symm.trans read
  · rintro ⟨first, unread⟩
    obtain ⟨text, quoted⟩ := List.head?_eq_some_iff.mp first
    rw [operand_of_quote quoted]
    split
    · next cs after closed =>
      obtain ⟨items, rfl, -⟩ := exists_items_of_body closed
      exact absurd (by simp [quoted, Item.literal]) (unread items after)
    · rfl

/-- An operand is a string exactly where a literal begins: the string has the characters of the
items, and the cursor comes to stand right behind the closing quote. Any other text that begins with
a quote is malformed. -/
theorem operand_reads_literal (c : Cursor) :
    (∀ s next, c.operand = .ok (.string s, next) ↔
      ∃ items after, c.rest = Item.literal items ++ after ∧
        s = Item.string items ∧
        next = ⟨c.offset + byteLength (Item.literal items), after⟩) ∧
    (c.operand = .error ⟨.malformedString, ⟨c.offset, byteLength c.rest⟩⟩ ↔
      c.rest.head? = some '"' ∧ ∀ items after, c.rest ≠ Item.literal items ++ after) :=
  ⟨fun _ _ => operand_eq_string_iff, operand_eq_malformed_iff⟩

/-- A plus sign and a digit are read as a code, and no literal without a plus sign in a code begins
like this. -/
theorem plus_sign_read_as_digit :
    (Cursor.start "\"\\x+5\"".toList).operand = .ok (.string "\x05", ⟨6, []⟩) ∧
      ∀ items after, (∀ i ∈ items, i.isPlusCode = false) →
        "\"\\x+5\"".toList ≠ Item.literal items ++ after := by
  refine ⟨operand_eq_string_iff.mpr ⟨[.plusCode '5' 5 ⟨by decide, .inl rfl⟩], [], rfl, rfl, rfl⟩,
    fun items after signless shape => ?_⟩
  have shape' : ['\\', 'x', '+', '5', '"'] = items.flatMap Item.text ++ '"' :: after := by
    simpa [Item.literal] using shape
  cases items with
  | nil => simp at shape'
  | cons i items =>
    have digit : i.isPlusCode = false := signless i List.mem_cons_self
    rw [List.flatMap_cons, List.append_assoc] at shape'
    cases i with
    | plain c ordinary => exact ordinary.2 (List.cons.inj shape').1.symm
    | letter l c known =>
      have unlisted : ∀ p ∈ letters, p.1 ≠ 'x' := by decide
      exact unlisted _ known (List.cons.inj (List.cons.inj shape').2).1.symm
    | code high low h l first second =>
      simp only [Item.text, List.cons_append, List.cons.injEq] at shape'
      obtain ⟨-, -, plus, -⟩ := shape'
      have value := hexValue?_eq_some_iff.mpr first
      rw [← plus] at value
      cases value
    | plusCode low l digit' => cases digit

end Cursor

end LC3
