import LC3.Proofs.Literals

/-!
# String literals read back

What is written for a character of a literal is read as the character in front of any text, so a
literal is read as its string character by character. The escape with a code point is the only one
of quoted text that is not known inside a literal, and makes it malformed.
-/

namespace LC3

/-- A text that begins with a quote is a literal or malformed. -/
theorem Cursor.operand_of_quote {c : Cursor} {text : List Char} (quoted : c.rest = '"' :: text) :
    c.operand =
      match StringLiteral.body text with
      | some (cs, after) => .ok (.string (String.ofList cs), c.moveTo after)
      | none => .error ⟨.malformedString, ⟨c.offset, byteLength c.rest⟩⟩ := by
  rw [operand]
  split
  · next text' quoted' =>
    cases quoted.symm.trans quoted'
    rfl
  · next unquoted => exact absurd quoted (unquoted _)

namespace StringLiteral

variable {c letter : Char} {rest : List Char}

/-- In front of any text of a literal, what is written stands for the character. -/
def Writes (written : List Char) (c : Char) : Prop :=
  ∀ rest, body (written ++ rest) = (body rest).map fun p => (c :: p.1, p.2)

theorem body_quote (rest : List Char) : body ('"' :: rest) = some ([], rest) := by
  rw [body.eq_def]
  rfl

theorem body_escape (single : letter ≠ 'x') :
    body ('\\' :: letter :: rest) =
      (escaped? letter).bind fun c => (body rest).map fun p => (c :: p.1, p.2) := by
  rw [body.eq_3 _ _ _ (fun _ _ _ same _ => single same)]
  cases escaped? letter <;> cases body rest <;> rfl

theorem writes_self (quote : c ≠ '"') (backslash : c ≠ '\\') : Writes [c] c := by
  intro rest
  rw [List.singleton_append, body.eq_def]
  simp only [if_neg quote, if_neg backslash]
  cases body rest <;> rfl

theorem writes_escape (known : escaped? letter = some c) : Writes ['\\', letter] c := by
  have single : letter ≠ 'x' := by
    rintro rfl
    cases known
  intro rest
  rw [List.cons_append, List.singleton_append, body_escape single, known, Option.bind_some]

theorem writes_code {high low : Char} (known : coded? high low = some c) :
    Writes ['\\', 'x', high, low] c := by
  intro rest
  simp only [List.cons_append, List.nil_append]
  rw [body.eq_def]
  simp only [known]
  cases body rest <;> rfl

/-- What is written for characters is read as the characters, and then what follows it. -/
theorem body_flatMap {α : Type} {written : α → List Char} {char : α → Char} {xs : List α}
    (writes : ∀ x ∈ xs, Writes (written x) (char x)) (rest : List Char) :
    body (xs.flatMap written ++ rest) = (body rest).map fun p => (xs.map char ++ p.1, p.2) := by
  induction xs with
  | nil => exact Option.map_id'.symm
  | cons x xs ih =>
    obtain ⟨first, others⟩ := List.forall_mem_cons.mp writes
    rw [List.flatMap_cons, List.append_assoc, first, ih others, Option.map_map]
    rfl

def literal (escape : Char → List Char) (cs : List Char) : List Char :=
  '"' :: cs.flatMap escape ++ ['"']

theorem operand_literal {escape : Char → List Char} {cs : List Char}
    (writes : ∀ c ∈ cs, Writes (escape c) c) {c : Cursor}
    (ahead : c.rest = literal escape cs ++ rest) :
    c.operand = .ok (.string (String.ofList cs), c.moveTo rest) := by
  have inside : body (cs.flatMap escape ++ '"' :: rest) = some (cs, rest) := by
    rw [body_flatMap writes, body_quote, Option.map_some, List.append_nil, List.map_id']
  have ahead' : c.rest = '"' :: (cs.flatMap escape ++ '"' :: rest) := by
    simpa [literal] using ahead
  rw [Cursor.operand_of_quote ahead', inside]

/-- The literal of a string stands for the string in any line. -/
theorem readsAs_literal {escape : Char → List Char} (cs : List Char)
    (writes : ∀ c ∈ cs, Writes (escape c) c)
    (unbroken : ∀ c ∈ cs, '\n' ∉ escape c ∧ '\r' ∉ escape c) :
    ReadsAs (literal escape cs) (.string (String.ofList cs)) where
  begins := ⟨'"', _, rfl, rfl⟩
  no_feed := by simpa [literal] using fun c present => (unbroken c present).1
  no_return := by simpa [literal] using fun c present => (unbroken c present).2
  read c rest _ ahead := operand_literal writes ahead

end StringLiteral

namespace Quoted

open StringLiteral

variable {c : Char}

/-- Whether quoted text has the code point of the character. -/
def isCoded (c : Char) : Bool := ['\\', 'u', '{'].isPrefixOf (escape c)

theorem escaped?_of_shortEscape? {e : Char} (short : shortEscape? c = some e) :
    escaped? e = some c ∧ e ≠ '\n' ∧ e ≠ '\r' := by
  unfold shortEscape? at short
  repeat' split at short
  all_goals cases short <;> subst_vars <;> decide

theorem ne_of_shortEscape?_eq_none (long : shortEscape? c = none) :
    c ≠ '\n' ∧ c ≠ '\r' ∧ c ≠ '\\' ∧ c ≠ '"' := by
  unfold shortEscape? at long
  repeat' split at long
  all_goals simp_all

/-- A line break is never written as it is. -/
theorem unbroken_escape (c : Char) : '\n' ∉ escape c ∧ '\r' ∉ escape c := by
  unfold escape
  split
  · next e short =>
    obtain ⟨-, noFeed, noReturn⟩ := escaped?_of_shortEscape? short
    simp [noFeed.symm, noReturn.symm]
  · next long =>
    obtain ⟨noFeed, noReturn, -, -⟩ := ne_of_shortEscape?_eq_none long
    split
    · simp [noFeed.symm, noReturn.symm]
    · have digits : ∀ d, endsToken d = true → d ∉ Nat.toDigits 16 c.toNat := by
        intro d ends present
        rw [LiteralMode.endsToken_of_mem_toDigits (by decide) (by decide) present] at ends
        cases ends
      simp [digits '\n' rfl, digits '\r' rfl]

/-- A character is read back, unless its code point is written for it. -/
theorem writes_escape_or_isCoded (c : Char) :
    isCoded c = false ∧ Writes (escape c) c ∨
      isCoded c = true ∧ ∃ code, escape c = '\\' :: 'u' :: code := by
  unfold isCoded escape
  split
  · next e short =>
    exact .inl ⟨by simp [List.isPrefixOf], writes_escape (escaped?_of_shortEscape? short).1⟩
  · next long =>
    obtain ⟨-, -, backslash, quote⟩ := ne_of_shortEscape?_eq_none long
    split
    · exact .inl ⟨by simp [List.isPrefixOf], writes_self quote backslash⟩
    · exact .inr ⟨by simp [List.isPrefixOf], _, rfl⟩

theorem body_code (rest : List Char) : body ('\\' :: 'u' :: rest) = none := by
  rw [body_escape (by decide)]
  rfl

/-- From the first character with its code point on, a quoted text is no literal. -/
theorem body_eq_none {cs : List Char} (coded : cs.any isCoded = true) (rest : List Char) :
    body (cs.flatMap escape ++ rest) = none := by
  induction cs with
  | nil => cases coded
  | cons c cs ih =>
    rw [List.flatMap_cons, List.append_assoc]
    rcases writes_escape_or_isCoded c with ⟨plain, writes⟩ | ⟨-, code, shape⟩
    · rw [List.any_cons, plain, Bool.false_or] at coded
      rw [writes, ih coded, Option.map_none]
    · rw [shape]
      exact body_code _

theorem toList_quote (s : String) : (quote s).toList = literal escape s.toList := by
  rw [quote, String.toList_ofList]
  rfl

/-- A quoted text is read as the text if it has no code points. -/
theorem readsAs_quote {s : String} (plain : s.toList.any isCoded = false) :
    ReadsAs (quote s).toList (.string s) := by
  have writes : ∀ c ∈ s.toList, Writes (escape c) c := by
    intro c present
    rcases writes_escape_or_isCoded c with ⟨-, writes⟩ | ⟨coded, -⟩
    · exact writes
    · exact absurd coded (List.any_eq_false.mp plain c present)
  rw [toList_quote]
  simpa using readsAs_literal _ writes fun c _ => unbroken_escape c

/-- A quoted text with a code point is a malformed literal. -/
theorem operand_quote {s : String} (coded : s.toList.any isCoded = true) {c : Cursor}
    {rest : List Char} (ahead : c.rest = (quote s).toList ++ rest) :
    c.operand = .error ⟨.malformedString, ⟨c.offset, byteLength c.rest⟩⟩ := by
  have ahead' : c.rest = '"' :: (s.toList.flatMap escape ++ '"' :: rest) := by
    simpa [toList_quote, literal] using ahead
  rw [Cursor.operand_of_quote ahead', body_eq_none coded]

end Quoted

end LC3
