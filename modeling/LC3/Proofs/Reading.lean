import LC3.Source.Parse

/-!
# Reading plain lines

A label, a keyword and then operands with a comma and a blank between them are read as just that,
and so is a comment behind them. Lines of this kind with line feeds between them are read one by
one.
-/

namespace LC3

/-- The text has nothing in it at which a token would end. -/
structure IsToken (text : List Char) : Prop where
  nonempty : text ≠ []
  unbroken : ∀ c ∈ text, endsToken c = false

theorem IsToken.of_all {text : List Char} (nonempty : text.isEmpty = false)
    (unbroken : text.all (!endsToken ·) = true) : IsToken text := by
  refine ⟨List.isEmpty_eq_false_iff.mp nonempty, fun c present => ?_⟩
  simpa using List.all_eq_true.mp unbroken c present

theorem IsToken.begins {text : List Char} (isToken : IsToken text) :
    ∃ d others, text = d :: others ∧ endsToken d = false := by
  obtain ⟨d, others, rfl⟩ := List.exists_cons_of_ne_nil isToken.nonempty
  exact ⟨d, others, rfl, isToken.unbroken d List.mem_cons_self⟩

/-- The text is over, or the next character ends the token before it. -/
def Stops (text : List Char) : Prop := ∀ c ∈ text.head?, endsToken c = true

/-- The token is read as the register or the number. -/
inductive Spells (token : List Char) : Operand → Prop
  | register {r : Register} (named : Register.ofName? token = some r) : Spells token (.register r)
  | number {w : Word} (unnamed : Register.ofName? token = none)
      (classified : NumberToken.classify (token.map Char.toUpper) = .number w) :
      Spells token (.number w)

theorem Spells.ne_quote {text : List Char} {x : Operand} (spells : Spells ('"' :: text) x) :
    False := by
  cases spells with
  | register named =>
    unfold Register.ofName? at named
    split at named
    · next letter d same =>
      cases same
      simp at named
    · cases named
  | number unnamed classified => cases classified

/-- The text stands for the operand in any line: it begins inside a token and holds no line break,
and it is read as the operand when what follows it ends a token. -/
structure ReadsAs (text : List Char) (x : Operand) : Prop where
  begins : ∃ d others, text = d :: others ∧ endsToken d = false
  no_feed : '\n' ∉ text
  no_return : '\r' ∉ text
  read : ∀ (c : Cursor) (rest : List Char), Stops rest → c.rest = text ++ rest →
    c.operand = .ok (x, c.moveTo rest)

def commentText : Option String → List Char
  | none => []
  | some text => ' ' :: ';' :: text.toList

theorem stops_commentText (comment : Option String) : Stops (commentText comment) := by
  intro c first
  cases comment with
  | none => cases first
  | some text =>
    cases first
    rfl

/-- A name that is no keyword, in the case in which labels are kept. -/
structure IsLabel (name : String) : Prop where
  isToken : IsToken name.toList
  folded : name.toList.map Char.toUpper = name.toList
  unknown : Keyword.isKeyword name = false

/-- A name that is an operand, in the case in which labels are kept. -/
structure IsName (name : String) : Prop where
  isToken : IsToken name.toList
  folded : name.toList.map Char.toUpper = name.toList
  unquoted : name.toList.head? ≠ some '"'
  unnamed : Register.ofName? name.toList = none
  classified : NumberToken.classify name.toList = .name

def labelText : Option String → List Char
  | none => []
  | some name => name.toList ++ [' ']

def operandsText : List (List Char) → List Char
  | [] => []
  | text :: texts => ' ' :: [',', ' '].intercalate (text :: texts)

/-- Whatever follows an opcode begins with a blank. -/
theorem stops_operandsText (texts : List (List Char)) (comment : Option String) :
    Stops (operandsText texts ++ commentText comment) := by
  cases texts with
  | nil => exact stops_commentText comment
  | cons text texts =>
    intro c first
    cases first
    rfl

theorem not_mem_of_endsToken {text : List Char} {c : Char} (ends : endsToken c = true)
    (unbroken : ∀ d ∈ text, endsToken d = false) : c ∉ text := by
  intro present
  rw [unbroken c present] at ends
  cases ends

namespace Cursor

theorem moveTo_rest (c : Cursor) (text : List Char) : (c.moveTo text).rest = text := rfl

theorem moveTo_self (c : Cursor) : c.moveTo c.rest = c := by
  rw [moveTo, Nat.sub_self, Nat.add_zero]

theorem isBlank_of_endsToken {c : Char} (inside : endsToken c = false) : isBlank c = false := by
  rw [endsToken, Bool.or_eq_false_iff, Bool.or_eq_false_iff] at inside
  exact inside.1.1

variable {c : Cursor} {token text rest : List Char}

/-- A token is read up to where it stops. -/
theorem token_eq (isToken : IsToken token) (stops : Stops rest) (ahead : c.rest = token ++ rest) :
    c.token = (token, c.moveTo rest) := by
  have inside : ∀ d ∈ token, (!endsToken d) = true := by
    intro d present
    rw [isToken.unbroken d present, Bool.not_false]
  have stopped : rest.takeWhile (!endsToken ·) = [] ∧ rest.dropWhile (!endsToken ·) = rest := by
    cases rest with
    | nil => exact ⟨rfl, rfl⟩
    | cons d rest =>
      have stop : ¬(!endsToken d) = true := by simp [stops d rfl]
      exact ⟨List.takeWhile_cons_of_neg stop, List.dropWhile_cons_of_neg stop⟩
  rw [Cursor.token, ahead, List.takeWhile_append_of_pos inside,
    List.dropWhile_append_of_pos inside, stopped.1, stopped.2, List.append_nil]

/-- Inside a token there is nothing to skip, and the line does not end. -/
theorem skipBlanks_of_cons {d : Char} (inside : endsToken d = false) (ahead : c.rest = d :: rest) :
    c.skipBlanks = c ∧ c.ending? = none := by
  have blank : ¬isBlank d = true := by simp [isBlank_of_endsToken inside]
  constructor
  · rw [skipBlanks, ahead, List.dropWhile_cons_of_neg blank, ← ahead, moveTo_self]
  · rw [ending?]
    split
    · next empty => cases ahead.symm.trans empty
    · next comment starts =>
      cases ahead.symm.trans starts
      cases inside
    · rfl

theorem skipBlanks_of_token (isToken : IsToken token) (ahead : c.rest = token ++ rest) :
    c.skipBlanks = c ∧ c.ending? = none := by
  obtain ⟨d, others, rfl, inside⟩ := isToken.begins
  exact skipBlanks_of_cons inside ahead

/-- One blank before the inside of a token is skipped. -/
theorem skipBlanks_of_blank (begins : ∃ d others, text = d :: others ∧ endsToken d = false)
    (ahead : c.rest = ' ' :: (text ++ rest)) :
    c.skipBlanks.rest = text ++ rest ∧ c.skipBlanks.ending? = none := by
  obtain ⟨d, others, rfl, inside⟩ := begins
  have blank : ¬isBlank d = true := by simp [isBlank_of_endsToken inside]
  have skipped : c.skipBlanks.rest = d :: others ++ rest := by
    rw [skipBlanks, moveTo_rest, ahead, List.dropWhile_cons_of_pos rfl, List.cons_append,
      List.dropWhile_cons_of_neg blank]
  exact ⟨skipped, (skipBlanks_of_cons inside skipped).2⟩

/-- A token that does not begin like a string is read as its kind says. -/
theorem operand_of_token (isToken : IsToken token) (unquoted : token.head? ≠ some '"')
    (stops : Stops rest) (ahead : c.rest = token ++ rest) :
    c.operand =
      match Register.ofName? token, NumberToken.classify (token.map Char.toUpper) with
      | some r, _ => .ok (.register r, c.moveTo rest)
      | none, .number w => .ok (.number w, c.moveTo rest)
      | none, .malformed =>
        .error ⟨.malformedNumber (String.ofList token), ⟨c.offset, byteLength token⟩⟩
      | none, .name => .ok (.label (foldCase token), c.moveTo rest) := by
  have nonempty : token.isEmpty = false := List.isEmpty_eq_false_iff.mpr isToken.nonempty
  rw [operand]
  split
  · next text quoted =>
    obtain ⟨d, others, rfl⟩ := List.exists_cons_of_ne_nil isToken.nonempty
    cases ahead.symm.trans quoted
    exact absurd rfl unquoted
  · simp only [token_eq isToken stops ahead, nonempty, Bool.false_eq_true, if_false]
    cases Register.ofName? token with
    | some r => rfl
    | none => cases NumberToken.classify (token.map Char.toUpper) <;> rfl

/-- A token that spells an operand is read as the operand. -/
theorem operand_of_spells {x : Operand} (isToken : IsToken token) (spells : Spells token x)
    (stops : Stops rest) (ahead : c.rest = token ++ rest) :
    c.operand = .ok (x, c.moveTo rest) := by
  have unquoted : token.head? ≠ some '"' := by
    intro first
    obtain ⟨others, rfl⟩ := List.head?_eq_some_iff.mp first
    exact spells.ne_quote
  rw [operand_of_token isToken unquoted stops ahead]
  cases spells with
  | register named => simp only [named]
  | number unnamed classified => simp only [unnamed, classified]

end Cursor

theorem IsToken.readsAs {token : List Char} {x : Operand} (isToken : IsToken token)
    (read : ∀ (c : Cursor) (rest : List Char), Stops rest → c.rest = token ++ rest →
      c.operand = .ok (x, c.moveTo rest)) : ReadsAs token x :=
  ⟨isToken.begins, not_mem_of_endsToken rfl isToken.unbroken,
    not_mem_of_endsToken rfl isToken.unbroken, read⟩

theorem Cursor.foldCase_of_folded {name : String}
    (folded : name.toList.map Char.toUpper = name.toList) : foldCase name.toList = name := by
  rw [foldCase, folded, String.ofList_toList]

/-- A name stands for a label. -/
theorem IsName.readsAs {name : String} (isName : IsName name) :
    ReadsAs name.toList (.label name) := by
  refine isName.isToken.readsAs fun c rest stops ahead => ?_
  rw [Cursor.operand_of_token isName.isToken isName.unquoted stops ahead]
  simp only [isName.unnamed, isName.folded, isName.classified,
    Cursor.foldCase_of_folded isName.folded]

theorem Spells.readsAs {token : List Char} {x : Operand} (spells : Spells token x)
    (isToken : IsToken token) : ReadsAs token x :=
  isToken.readsAs fun _ _ => Cursor.operand_of_spells isToken spells

namespace Cursor

variable {c : Cursor} {token text rest : List Char} {comment : Option String}

theorem ending?_of_commentText (ahead : c.rest = commentText comment) :
    c.skipBlanks.ending? = some comment := by
  cases comment with
  | none => simp only [skipBlanks, moveTo_rest, ahead, commentText, List.dropWhile_nil, ending?]
  | some text =>
    have skipped : c.skipBlanks.rest = ';' :: text.toList := by
      rw [skipBlanks, moveTo_rest, ahead, commentText, List.dropWhile_cons_of_pos rfl,
        List.dropWhile_cons_of_neg (by decide)]
    simp only [ending?, skipped, String.ofList_toList]

theorem operands_of_ending? (ended : c.skipBlanks.ending? = some comment) :
    c.operands = .ok ([], comment) := by
  rw [operands, ended]

/-- Behind the last operand there is no comma to skip. -/
theorem operands_skipSeparator_of_commentText (ahead : c.rest = commentText comment) :
    c.skipSeparator.operands = .ok ([], comment) := by
  have uncomma : c.skipBlanks.skipComma = c.skipBlanks := by
    have ended := ending?_of_commentText ahead
    rw [skipComma]
    split
    · next rest comma => simp [ending?, comma] at ended
    · rfl
  have again : c.skipBlanks.skipBlanks = c.skipBlanks := by
    cases comment with
    | none => simp [skipBlanks, moveTo, ahead, commentText]
    | some text => simp [skipBlanks, moveTo, ahead, commentText, isBlank]
  apply operands_of_ending?
  rw [skipSeparator, uncomma, again]
  exact ending?_of_commentText ahead

theorem operands_of_operand {x : Operand} {next : Cursor} (going : c.skipBlanks.ending? = none)
    (read : c.skipBlanks.operand = .ok (x, next)) :
    c.operands = next.skipSeparator.operands.map fun p => (x :: p.1, p.2) := by
  rw [operands]
  split
  · next comment ended => cases going.symm.trans ended
  · split
    · next e failed => cases read.symm.trans failed
    · next y next' read' =>
      cases read.symm.trans read'
      cases next.skipSeparator.operands <;> rfl

theorem operands_of_error {e : LineError} (going : c.skipBlanks.ending? = none)
    (failed : c.skipBlanks.operand = .error e) : c.operands = .error e := by
  rw [operands]
  split
  · next comment ended => cases going.symm.trans ended
  · split
    · next e' failed' =>
      cases failed.symm.trans failed'
      rfl
    · next x next read => cases failed.symm.trans read

/-- After a blank an operand is read, and then what follows its separator. -/
theorem operands_cons {x : Operand} (readsAs : ReadsAs text x) (stops : Stops rest)
    (ahead : c.rest = ' ' :: (text ++ rest)) :
    ∃ next : Cursor, next.rest = rest ∧
      c.operands = next.skipSeparator.operands.map fun p => (x :: p.1, p.2) := by
  obtain ⟨skipped, going⟩ := skipBlanks_of_blank readsAs.begins ahead
  exact ⟨_, rfl, operands_of_operand going (readsAs.read _ rest stops skipped)⟩

/-- The first of the operands behind an opcode is read, and then the others. -/
theorem operands_operandsText {x : Operand} {texts : List (List Char)} (readsAs : ReadsAs text x)
    (ahead : c.rest = operandsText (text :: texts) ++ commentText comment) :
    ∃ next : Cursor, next.rest = operandsText texts ++ commentText comment ∧
      c.operands = next.operands.map fun p => (x :: p.1, p.2) := by
  cases texts with
  | nil =>
    rw [operandsText, List.intercalate_singleton, List.cons_append] at ahead
    obtain ⟨next, after, read⟩ := operands_cons readsAs (stops_commentText comment) ahead
    refine ⟨next, after, ?_⟩
    rw [read, operands_skipSeparator_of_commentText after,
      operands_of_ending? (ending?_of_commentText after)]
  | cons text' texts =>
    rw [operandsText, List.intercalate_cons_cons, List.append_assoc, List.cons_append,
      List.append_assoc] at ahead
    obtain ⟨next, after, read⟩ := operands_cons readsAs
      (fun c stop => by cases stop; rfl) ahead
    refine ⟨next.skipSeparator, ?_, read⟩
    have comma : next.skipBlanks.rest = next.rest := by
      rw [skipBlanks, moveTo_rest, after]
      exact List.dropWhile_cons_of_neg (by decide)
    simp only [skipSeparator, skipComma, comma, after, List.cons_append, List.nil_append,
      moveTo_rest, operandsText]

/-- Operands with a comma and a blank between them are read in their order. -/
theorem operands_of_readsAs {spelled : List (List Char × Operand)}
    (readable : ∀ p ∈ spelled, ReadsAs p.1 p.2)
    (ahead : c.rest = operandsText (spelled.map Prod.fst) ++ commentText comment) :
    c.operands = .ok (spelled.map Prod.snd, comment) := by
  induction spelled generalizing c with
  | nil => exact operands_of_ending? (ending?_of_commentText ahead)
  | cons p spelled ih =>
    obtain ⟨first, others⟩ := List.forall_mem_cons.mp readable
    obtain ⟨next, after, read⟩ := operands_operandsText first ahead
    rw [read, ih others after]
    rfl

/-- A keyword at the start of a line is its opcode. -/
theorem statement_of_keyword (isToken : IsToken token) (stops : Stops rest)
    (known : Keyword.isKeyword (foldCase token) = true) (ahead : c.rest = token ++ rest) :
    c.statement = (c.moveTo rest).operation none (foldCase token) := by
  obtain ⟨clean, going⟩ := skipBlanks_of_token isToken ahead
  have nonempty : token.isEmpty = false := List.isEmpty_eq_false_iff.mpr isToken.nonempty
  simp only [statement, clean, going, token_eq isToken stops ahead, nonempty, known,
    Bool.false_eq_true, if_false, if_true]

/-- Any other name at the start of a line is its label. -/
theorem statement_of_label {name : String} (isLabel : IsLabel name) (stops : Stops rest)
    (ahead : c.rest = name.toList ++ rest) : c.statement = (c.moveTo rest).afterLabel name := by
  obtain ⟨clean, going⟩ := skipBlanks_of_token isLabel.isToken ahead
  have nonempty : name.toList.isEmpty = false :=
    List.isEmpty_eq_false_iff.mpr isLabel.isToken.nonempty
  simp only [statement, clean, going, token_eq isLabel.isToken stops ahead, nonempty,
    foldCase_of_folded isLabel.folded, isLabel.unknown, Bool.false_eq_true, if_false]

/-- A keyword behind a label is the opcode. -/
theorem afterLabel_of_keyword (label : String) (isToken : IsToken token) (stops : Stops rest)
    (known : Keyword.isKeyword (foldCase token) = true) (ahead : c.rest = ' ' :: (token ++ rest)) :
    c.afterLabel label = (c.skipBlanks.moveTo rest).operation (some label) (foldCase token) := by
  obtain ⟨skipped, going⟩ := skipBlanks_of_blank isToken.begins ahead
  simp only [afterLabel, going, token_eq isToken stops skipped, known, if_true]

end Cursor

namespace Keyword

/-- Every keyword is a token in upper case. -/
theorem isToken_of_isKeyword {k : String} (known : isKeyword k = true) :
    IsToken k.toList ∧ Cursor.foldCase k.toList = k := by
  have table : ∀ k ∈ all, k.toList.isEmpty = false ∧ k.toList.all (!endsToken ·) = true ∧
      Cursor.foldCase k.toList = k := by decide
  obtain ⟨nonempty, unbroken, folded⟩ := table k (List.contains_iff_mem.mp known)
  exact ⟨.of_all nonempty unbroken, folded⟩

end Keyword

namespace Cursor

variable {c : Cursor} {rest : List Char} {label : Option String} {k : String}

/-- A keyword, behind a label or not, is the opcode of the line. -/
theorem statement_operation (isLabel : ∀ name ∈ label, IsLabel name)
    (known : Keyword.isKeyword k = true) (stops : Stops rest)
    (ahead : c.rest = labelText label ++ (k.toList ++ rest)) :
    ∃ next : Cursor, next.rest = rest ∧ c.statement = next.operation label k := by
  obtain ⟨isToken, folded⟩ := Keyword.isToken_of_isKeyword known
  have known' : Keyword.isKeyword (foldCase k.toList) = true := folded.symm ▸ known
  cases label with
  | none =>
    have read := statement_of_keyword isToken stops known' ahead
    rw [folded] at read
    exact ⟨_, rfl, read⟩
  | some name =>
    rw [labelText, List.append_assoc] at ahead
    have labelled := statement_of_label (isLabel name rfl) (fun c stop => by cases stop; rfl) ahead
    have read := afterLabel_of_keyword (c := c.moveTo (' ' :: (k.toList ++ rest))) name isToken
      stops known' rfl
    rw [folded] at read
    exact ⟨_, rfl, labelled.trans read⟩

/-- A line that is a keyword with operands, and may have a label and a comment. -/
theorem statement_of_readsAs (spelled : List (List Char × Operand)) {comment : Option String}
    (isLabel : ∀ name ∈ label, IsLabel name) (known : Keyword.isKeyword k = true)
    (readable : ∀ p ∈ spelled, ReadsAs p.1 p.2)
    (ahead : c.rest = labelText label ++ (k.toList ++
      (operandsText (spelled.map Prod.fst) ++ commentText comment))) :
    c.statement = .ok { label, opcode := some k, operands := spelled.map Prod.snd, comment } := by
  obtain ⟨next, after, read⟩ :=
    statement_operation isLabel known (stops_operandsText _ comment) ahead
  rw [read, operation, operands_of_readsAs readable after]

end Cursor

namespace Source

/-- The text is a line without a line break in it, and is read as a statement that does not end
the source. -/
structure IsLine (text : List Char) (s : Statement) : Prop where
  nonempty : text ≠ []
  no_feed : '\n' ∉ text
  no_return : '\r' ∉ text
  read : (Cursor.start text).statement = .ok s
  going : s.opcode ≠ some Keyword.finish

theorem mem_intercalate {separator : List Char} {texts : List (List Char)} {c : Char}
    (present : c ∈ separator.intercalate texts) : c ∈ separator ∨ ∃ text ∈ texts, c ∈ text := by
  induction texts with
  | nil => cases present
  | cons text texts ih =>
    cases texts with
    | nil =>
      rw [List.intercalate_singleton] at present
      exact .inr ⟨text, List.mem_cons_self, present⟩
    | cons text' texts =>
      rw [List.intercalate_cons_cons, List.append_assoc, List.mem_append, List.mem_append]
        at present
      rcases present with first | between | later
      · exact .inr ⟨text, List.mem_cons_self, first⟩
      · exact .inl between
      · rcases ih later with between | ⟨found, known, inside⟩
        · exact .inl between
        · exact .inr ⟨found, List.mem_cons_of_mem text known, inside⟩

section

variable (label : Option String) {k : String} (spelled : List (List Char × Operand))
  (isLabel : ∀ name ∈ label, IsLabel name) (known : Keyword.isKeyword k = true)
include isLabel known

/-- A line break that is in no operand is nowhere in an operation. -/
theorem not_mem_operation {c : Char} (ends : endsToken c = true) (outside : c ∉ [',', ' '])
    (absent : ∀ p ∈ spelled, c ∉ p.1) :
    c ∉ labelText label ++ (k.toList ++ operandsText (spelled.map Prod.fst)) := by
  have inLabel : c ∉ labelText label := by
    cases label with
    | none => exact List.not_mem_nil
    | some name =>
      simp only [labelText, List.mem_append, not_or]
      exact ⟨not_mem_of_endsToken ends (isLabel name rfl).isToken.unbroken,
        fun blank => outside (List.mem_cons_of_mem ',' blank)⟩
  have inOpcode : c ∉ k.toList :=
    not_mem_of_endsToken ends (Keyword.isToken_of_isKeyword known).1.unbroken
  have inOperands : c ∉ operandsText (spelled.map Prod.fst) := by
    cases spelled with
    | nil => exact List.not_mem_nil
    | cons p spelled =>
      intro present
      rcases List.mem_cons.mp present with rfl | later
      · exact outside (by decide)
      · rcases mem_intercalate later with between | ⟨text, written, inside⟩
        · exact outside between
        · obtain ⟨q, member, rfl⟩ := List.mem_map.mp (List.map_cons ▸ written)
          exact absent q member inside
  simp only [List.mem_append, not_or]
  exact ⟨inLabel, inOpcode, inOperands⟩

/-- A keyword with operands is a line, also behind a label. -/
theorem isLine_operation (going : k ≠ Keyword.finish) (readable : ∀ p ∈ spelled, ReadsAs p.1 p.2) :
    IsLine (labelText label ++ (k.toList ++ operandsText (spelled.map Prod.fst)))
      { label, opcode := some k, operands := spelled.map Prod.snd } where
  nonempty := by simp [(Keyword.isToken_of_isKeyword known).1.nonempty]
  no_feed := not_mem_operation label spelled isLabel known rfl (by decide) fun p member =>
    (readable p member).no_feed
  no_return := not_mem_operation label spelled isLabel known rfl (by decide) fun p member =>
    (readable p member).no_return
  read := Cursor.statement_of_readsAs spelled isLabel known readable
    (by rw [commentText, List.append_nil]; rfl)
  going := fun h => going (Option.some.inj h)

end

/-- A keyword alone is a line. -/
theorem isLine_keyword {k : String} (known : Keyword.isKeyword k = true)
    (going : k ≠ Keyword.finish) : IsLine k.toList { opcode := some k } := by
  simpa [labelText, operandsText] using
    isLine_operation none [] (by simp) known going (by simp)

theorem rawLines_of_dropWhile {text rest : List Char} {feed : Char}
    (dropped : text.dropWhile (· != '\n') = feed :: rest) :
    rawLines text = (text.takeWhile (· != '\n') ++ [feed]) :: rawLines rest := by
  cases text with
  | nil => cases dropped
  | cons c cs =>
    rw [rawLines]
    split
    · next whole => cases dropped.symm.trans whole
    · next feed' rest' found =>
      cases dropped.symm.trans found
      rfl

theorem ne_feed_of_not_mem {text : List Char} (clean : '\n' ∉ text) :
    ∀ c ∈ text, (c != '\n') = true := by
  intro c present
  rw [bne_iff_ne]
  rintro rfl
  exact clean present

theorem rawLines_cons {text rest : List Char} (clean : '\n' ∉ text) :
    rawLines (text ++ '\n' :: rest) = (text ++ ['\n']) :: rawLines rest := by
  have inside := ne_feed_of_not_mem clean
  have dropped : (text ++ '\n' :: rest).dropWhile (· != '\n') = '\n' :: rest := by
    rw [List.dropWhile_append_of_pos inside, List.dropWhile_cons_of_neg (by decide)]
  rw [rawLines_of_dropWhile dropped, List.takeWhile_append_of_pos inside,
    List.takeWhile_cons_of_neg (by decide), List.append_nil]

theorem rawLines_last {text : List Char} (nonempty : text ≠ []) (clean : '\n' ∉ text) :
    rawLines text = [text] := by
  have dropped : text.dropWhile (· != '\n') = [] := by
    rw [← List.append_nil text, List.dropWhile_append_of_pos (ne_feed_of_not_mem clean)]
    rfl
  obtain ⟨c, cs, rfl⟩ := List.exists_cons_of_ne_nil nonempty
  rw [rawLines]
  split
  · rfl
  · next feed rest found => cases dropped.symm.trans found

theorem stripLast_of_not_mem {last : Char} {text : List Char} (absent : last ∉ text) :
    stripLast last text = text := by
  rw [stripLast, if_neg]
  intro ends
  exact absent (List.mem_of_getLast? ends)

theorem stripLast_concat (c : Char) (text : List Char) : stripLast c (text ++ [c]) = text := by
  rw [stripLast, if_pos (List.getLast?_concat ..), List.dropLast_concat]

theorem withoutTerminator_feed (line : List Char) :
    withoutTerminator (line ++ ['\n']) = stripLast '\r' line := by
  rw [withoutTerminator, stripLast_concat]

theorem withoutTerminator_last {line : List Char} (clean : '\n' ∉ line) :
    withoutTerminator line = stripLast '\r' line := by
  rw [withoutTerminator, stripLast_of_not_mem clean]

theorem withoutTerminator_of_isLine {text raw : List Char} {s : Statement}
    (isLine : IsLine text s) (shape : raw = text ∨ raw = text ++ ['\n']) :
    withoutTerminator raw = text := by
  rcases shape with rfl | rfl
  · rw [withoutTerminator_last isLine.no_feed, stripLast_of_not_mem isLine.no_return]
  · rw [withoutTerminator_feed, stripLast_of_not_mem isLine.no_return]

theorem parseLine_of_isLine {text raw : List Char} {s : Statement} (isLine : IsLine text s)
    (shape : raw = text ∨ raw = text ++ ['\n']) (number offset : Nat) :
    ∃ line, parseLine number offset raw = .ok line ∧ line.toStatement = s := by
  simp only [parseLine, withoutTerminator_of_isLine isLine shape, isLine.read]
  exact ⟨_, rfl, rfl⟩

/-- Lines with line feeds between them are read one by one. -/
theorem parseLines_intercalate {written : List (List Char × Statement)}
    (readable : ∀ p ∈ written, IsLine p.1 p.2) (number offset : Nat) :
    ∃ lines, parseLines number offset (rawLines (['\n'].intercalate (written.map Prod.fst))) =
      .ok lines ∧ lines.map Line.toStatement = written.map Prod.snd := by
  induction written generalizing number offset with
  | nil => exact ⟨[], by rw [List.map_nil, List.intercalate_nil, rawLines, parseLines], rfl⟩
  | cons p written ih =>
    have isLine := readable p List.mem_cons_self
    cases written with
    | nil =>
      obtain ⟨line, parsed, denotes⟩ := parseLine_of_isLine isLine (.inl rfl) number offset
      have going : ¬line.opcode = some Keyword.finish := denotes ▸ isLine.going
      refine ⟨[line], ?_, congrArg (fun s => [s]) denotes⟩
      simp only [List.map_cons, List.map_nil, List.intercalate_singleton,
        rawLines_last isLine.nonempty isLine.no_feed, parseLines, parsed, if_neg going]
    | cons q written =>
      obtain ⟨line, parsed, denotes⟩ := parseLine_of_isLine isLine (.inr rfl) number offset
      obtain ⟨lines, others, statements⟩ :=
        ih (fun r later => readable r (List.mem_cons_of_mem p later)) (number + 1)
          (offset + byteLength (p.1 ++ ['\n']))
      have going : ¬line.opcode = some Keyword.finish := denotes ▸ isLine.going
      refine ⟨line :: lines, ?_, ?_⟩
      · rw [List.map_cons, List.map_cons, List.intercalate_cons_cons, List.append_assoc,
          List.singleton_append, rawLines_cons isLine.no_feed, ← List.map_cons]
        simp only [parseLines, parsed, if_neg going, others]
      · rw [List.map_cons, List.map_cons, denotes, statements]

/-- A source that has lines with line feeds between them is read as what the lines say. -/
theorem parse_intercalate (written : List (String × Statement))
    (readable : ∀ p ∈ written, IsLine p.1.toList p.2) :
    ∃ lines, parse ("\n".intercalate (written.map Prod.fst)) = .ok lines ∧
      lines.map Line.toStatement = written.map Prod.snd := by
  have readable' : ∀ p ∈ written.map fun p => (p.1.toList, p.2), IsLine p.1 p.2 := by
    rw [List.forall_mem_map]
    exact readable
  obtain ⟨lines, parsed, denotes⟩ := parseLines_intercalate readable' 1 0
  rw [List.map_map] at parsed denotes
  refine ⟨lines, ?_, denotes⟩
  rw [parse, String.toList_intercalate, List.map_map]
  exact parsed

end Source

end LC3
