import LC3.Assembly.Image

/-!
# What the contents of a line come from

Contents come from a form that accepts the operands of the line, and from one argument for each
operand. Only the form of `.END` ends the program, and every branch mnemonic names a sign.
-/

namespace LC3

namespace Slot

theorem length_eq_of_acceptAll {slots : List Slot} {xs : List Operand}
    (accepted : acceptAll slots xs = true) : slots.length = xs.length := by
  induction slots generalizing xs with
  | nil =>
    cases xs with
    | nil => rfl
    | cons x xs => exact absurd accepted (by simp [acceptAll])
  | cons slot slots ih =>
    cases xs with
    | nil => exact absurd accepted (by simp [acceptAll])
    | cons x xs =>
      simp only [acceptAll, Bool.and_eq_true] at accepted
      simp only [List.length_cons, ih accepted.2]

theorem resolveAll_cons {labels : Labels} {a : Word} {slot : Slot} {slots : List Slot}
    {x : Operand} {xs : List Operand} {arguments : List Argument}
    (resolved : resolveAll labels a (slot :: slots) (x :: xs) = .ok arguments) :
    ∃ first others, slot.resolve labels a x = .ok first ∧
      resolveAll labels a slots xs = .ok others ∧ arguments = first :: others := by
  rw [resolveAll] at resolved
  split at resolved
  · cases resolved
  · next first hfirst =>
    split at resolved
    · cases resolved
    · next others hothers =>
      cases resolved
      exact ⟨first, others, hfirst, hothers, rfl⟩

theorem length_eq_of_resolveAll {labels : Labels} {a : Word} {slots : List Slot}
    {xs : List Operand} {arguments : List Argument} (accepted : acceptAll slots xs = true)
    (resolved : resolveAll labels a slots xs = .ok arguments) :
    arguments.length = xs.length := by
  induction slots generalizing xs arguments with
  | nil =>
    have none := length_eq_of_acceptAll accepted
    cases resolved
    simpa using none
  | cons slot slots ih =>
    cases xs with
    | nil => exact absurd accepted (by simp [acceptAll])
    | cons x xs =>
      simp only [acceptAll, Bool.and_eq_true] at accepted
      obtain ⟨first, others, -, hothers, rfl⟩ := resolveAll_cons resolved
      simp only [List.length_cons, ih accepted.2 hothers]

/-- A line with a single operand has a single argument, which the operand resolves to. -/
theorem resolveAll_singleton {labels : Labels} {a : Word} {slots : List Slot}
    {xs : List Operand} {argument : Argument} (accepted : acceptAll slots xs = true)
    (resolved : resolveAll labels a slots xs = .ok [argument]) :
    ∃ (slot : Slot) (x : Operand), xs = [x] ∧ slot.resolve labels a x = .ok argument := by
  have single : xs.length = 1 := (length_eq_of_resolveAll accepted resolved).symm
  obtain ⟨x, rfl⟩ := List.length_eq_one_iff.mp single
  obtain ⟨slot, rfl⟩ := List.length_eq_one_iff.mp (length_eq_of_acceptAll accepted)
  obtain ⟨first, others, hfirst, -, h⟩ := resolveAll_cons resolved
  cases h
  exact ⟨slot, x, rfl, hfirst⟩

/-- Only defined labels are resolved. -/
theorem exists_lookup_of_resolveAll {labels : Labels} {a : Word} {slots : List Slot}
    {xs : List Operand} {arguments : List Argument} (accepted : acceptAll slots xs = true)
    (resolved : resolveAll labels a slots xs = .ok arguments) {name : String}
    (used : Operand.label name ∈ xs) : ∃ t, labels.lookup name = some t := by
  induction slots generalizing xs arguments with
  | nil =>
    cases List.eq_nil_of_length_eq_zero (length_eq_of_acceptAll accepted).symm
    cases used
  | cons slot slots ih =>
    cases xs with
    | nil => cases used
    | cons x xs =>
      simp only [acceptAll, Bool.and_eq_true] at accepted
      obtain ⟨first, others, hfirst, hothers, -⟩ := resolveAll_cons resolved
      rcases List.mem_cons.mp used with rfl | later
      · simp only [resolve] at hfirst
        split at hfirst
        · next t found => exact ⟨t, found⟩
        · cases hfirst
      · exact ih accepted.2 hothers later

theorem eq_string_of_resolve {labels : Labels} {a : Word} {slot : Slot} {x : Operand} {s : String}
    (resolved : slot.resolve labels a x = .ok (.text s)) : x = .string s := by
  cases x with
  | register r => cases resolved
  | number w => cases resolved
  | string text =>
    cases resolved
    rfl
  | label name =>
    simp only [resolve] at resolved
    split at resolved <;> cases resolved

end Slot

namespace Condition

theorem strip_eq_of_false {letter : Char} {text : List Char}
    (absent : (strip letter text).1 = false) : (strip letter text).2 = text := by
  cases text with
  | nil => rfl
  | cons c rest =>
    rw [strip] at absent ⊢
    by_cases h : c = letter
    · rw [if_pos h] at absent
      cases absent
    · rw [if_neg h]

/-- A branch mnemonic names at least one sign. -/
theorem isEmpty_of_ofMnemonic? {mnemonic : String} {c : Condition}
    (named : ofMnemonic? mnemonic = some c) : c.isEmpty = false := by
  rw [ofMnemonic?] at named
  split at named
  · cases named
    rfl
  · next suffix nonempty _ =>
    simp only [Option.ite_none_right_eq_some, Option.some.injEq] at named
    obtain ⟨consumed, rfl⟩ := named
    rw [← Bool.not_eq_true]
    intro empty
    -- Without a letter nothing is stripped, so the suffix would be empty.
    simp only [isEmpty, Bool.not_eq_true', Bool.or_eq_false_iff] at empty
    obtain ⟨⟨noN, noZ⟩, noP⟩ := empty
    rw [strip_eq_of_false noP, strip_eq_of_false noZ, strip_eq_of_false noN,
      List.isEmpty_iff] at consumed
    exact nonempty consumed
  · cases named

/-- The name of a condition is read as the condition. -/
theorem ofMnemonic?_mnemonic {c : Condition} (nonempty : c.isEmpty = false) :
    ofMnemonic? c.mnemonic = some c := by
  obtain ⟨n, z, p⟩ := c
  cases n <;> cases z <;> cases p <;> revert nonempty <;> decide

end Condition

namespace Form

theorem find?_spec {opcode : String} {xs : List Operand} {form : Form}
    (found : find? opcode xs = some form) :
    form ∈ all ∧ form.opcode = key opcode ∧ Slot.acceptAll form.slots xs = true := by
  have accepted := List.find?_some found
  simp only [accepts, Bool.and_eq_true, beq_iff_eq] at accepted
  exact ⟨List.mem_of_find?_eq_some found, accepted⟩

theorem isFinish_iff_of_mem {form : Form} (known : form ∈ all) :
    form.template.isFinish = true ↔ form.opcode = Keyword.finish := by
  have table : ∀ f ∈ all, f.template.isFinish = (f.opcode == Keyword.finish) := by decide
  rw [table form known, beq_iff_eq]

theorem key_eq_finish_iff {opcode : String} :
    key opcode = Keyword.finish ↔ opcode = Keyword.finish := by
  rw [key]
  split
  · next branch =>
    constructor
    · intro h
      exact absurd h (by decide)
    · rintro rfl
      exact absurd branch (by decide)
  · rfl

end Form

namespace Template

def isInstruction : Template → Bool
  | .fill | .origin | .block | .text | .finish => false
  | _ => true

/-- The contents that a template can make of arguments; of an instruction nothing is said here but
that it is one. -/
inductive Makes : Template → List Argument → Contents → Prop
  | instruction {t : Template} {arguments : List Argument} {i : Instruction}
      (encodes : t.isInstruction = true) : Makes t arguments (.instruction i)
  | fill {v : Word} : Makes .fill [.value v] (.words [v])
  | origin {o : Word} : Makes .origin [.value o] (.origin o)
  | block {n : Word} : Makes .block [.value n] (.words (List.replicate n.toNat 0))
  | text {s : String} : Makes .text [.text s] (.words (textWords s ++ [0]))
  | finish : Makes .finish [] .finish

theorem makes_of_contents {t : Template} {mnemonic : String} {arguments : List Argument}
    {c : Contents} (made : t.contents mnemonic arguments = .ok c) : t.Makes arguments c := by
  unfold contents at made
  repeat' split at made
  all_goals cases made
  all_goals constructor
  all_goals rfl

end Template

def Contents.next (a : Word) : Contents → Word
  | .words ws => a + BitVec.ofNat 16 ws.length
  | .origin o => o
  | .finish => a

theorem length_textWords (s : String) : (textWords s).length = byteLength s.toList := by
  have bytes : ∀ cs : List Char, (cs.flatMap String.utf8EncodeChar).length = byteLength cs := by
    intro cs
    induction cs with
    | nil => rfl
    | cons c cs ih =>
      rw [List.flatMap_cons, List.length_append, String.length_utf8EncodeChar, ih,
        byteLength_cons]
  rw [textWords, List.length_map, bytes]

theorem Contents.next_text (a : Word) (s : String) :
    Contents.next a (.words (textWords s ++ [0])) =
      a + BitVec.ofNat 16 (byteLength s.toList) + 1 := by
  rw [next, List.length_append, length_textWords, List.length_singleton, BitVec.ofNat_add,
    ← BitVec.add_assoc]
  rfl

theorem Contents.next_block (a n : Word) :
    Contents.next a (.words (List.replicate n.toNat 0)) = a + n := by
  rw [next, List.length_replicate, BitVec.ofNat_toNat, BitVec.setWidth_eq]

namespace Line

theorem form?_eq_ok_some {line : Line} {form : Form} (found : line.form? = .ok (some form)) :
    ∃ opcode, line.opcode = some opcode ∧ Form.find? opcode line.operands = some form := by
  rw [form?] at found
  split at found
  · cases found
  · next opcode h =>
    split at found
    · next f hf =>
      cases found
      exact ⟨opcode, h, hf⟩
    · cases found

theorem opcode_of_form?_eq_ok_none {line : Line} (found : line.form? = .ok none) :
    line.opcode = none := by
  rw [form?] at found
  split at found
  · assumption
  · split at found <;> cases found

/-- The contents of a line at the address, or none for a line without an opcode. -/
def contents? (line : Line) (labels : Labels) (a : Word) : Except LayoutError (Option Contents) :=
  (line.translate? labels a).map (Option.map Prod.fst)

theorem translate?_eq_ok_some {line : Line} {labels : Labels} {a next : Word} {c : Contents}
    (made : line.translate? labels a = .ok (some (c, next))) :
    ∃ form arguments, line.form? = .ok (some form) ∧
      Slot.resolveAll labels a form.slots line.operands = .ok arguments ∧
      line.nextAddress form a = .ok next ∧
      form.template.contents (line.opcode.getD "") arguments = .ok c := by
  rw [translate?] at made
  split at made
  · cases made
  · cases made
  · next form found =>
    split at made
    · cases made
    · next arguments resolved =>
      split at made
      · cases made
      · next next' sized =>
        split at made
        · cases made
        · next contents makes =>
          cases made
          exact ⟨form, arguments, found, resolved, sized, makes⟩

theorem contents?_eq_ok_some {line : Line} {labels : Labels} {a : Word} {c : Contents}
    (made : line.contents? labels a = .ok (some c)) :
    ∃ form arguments, line.form? = .ok (some form) ∧
      Slot.resolveAll labels a form.slots line.operands = .ok arguments ∧
      form.template.contents (line.opcode.getD "") arguments = .ok c := by
  rw [contents?] at made
  rcases translated : line.translate? labels a with _ | _ | ⟨c', next⟩ <;>
    rw [translated] at made <;> cases made
  obtain ⟨form, arguments, found, resolved, -, makes⟩ := translate?_eq_ok_some translated
  exact ⟨form, arguments, found, resolved, makes⟩

theorem form?_of_contents?_eq_ok_none {line : Line} {labels : Labels} {a : Word}
    (made : line.contents? labels a = .ok none) : line.form? = .ok none := by
  rw [contents?, translate?] at made
  split at made
  · cases made
  · assumption
  · split at made
    · cases made
    · split at made
      · cases made
      · split at made <;> cases made

/-- The form accepts the operands of its line. -/
theorem acceptAll_of_form? {line : Line} {form : Form} (found : line.form? = .ok (some form)) :
    Slot.acceptAll form.slots line.operands = true := by
  obtain ⟨opcode, -, h⟩ := form?_eq_ok_some found
  exact (Form.find?_spec h).2.2

theorem isFinish_form_iff {line : Line} {form : Form} (found : line.form? = .ok (some form)) :
    form.template.isFinish = true ↔ line.opcode = some Keyword.finish := by
  obtain ⟨opcode, hopcode, h⟩ := form?_eq_ok_some found
  obtain ⟨known, name, -⟩ := Form.find?_spec h
  rw [Form.isFinish_iff_of_mem known, name, Form.key_eq_finish_iff, hopcode, Option.some.injEq]

/-- The contents of a line with an opcode, from its form and the arguments. -/
theorem contents?_of_form {line : Line} {labels : Labels} {a : Word} {opcode : String}
    {arguments : List Argument} {c : Contents} (form : Form) (coded : line.opcode = some opcode)
    (found : Form.find? opcode line.operands = some form)
    (resolved : Slot.resolveAll labels a form.slots line.operands = .ok arguments)
    {next : Word} (sized : line.nextAddress form a = .ok next)
    (contents : form.template.contents opcode arguments = .ok c) :
    line.contents? labels a = .ok (some c) := by
  simp only [contents?, translate?, form?, coded, found, resolved, sized, Option.getD_some,
    contents]
  rfl

/-- A line that has an opcode and makes contents uses defined labels only. -/
theorem exists_lookup_of_contents? {line : Line} {labels : Labels} {a : Word} {c : Contents}
    (made : line.contents? labels a = .ok (some c)) {name : String}
    (used : Operand.label name ∈ line.operands) : ∃ t, labels.lookup name = some t := by
  obtain ⟨form, arguments, found, resolved, -⟩ := contents?_eq_ok_some made
  exact Slot.exists_lookup_of_resolveAll (acceptAll_of_form? found) resolved used

/-- The form and the arguments from which the contents of a line are made. -/
theorem makes_of_contents? {line : Line} {labels : Labels} {a : Word} {c : Contents}
    (made : line.contents? labels a = .ok (some c)) :
    ∃ form arguments, line.form? = .ok (some form) ∧
      Slot.acceptAll form.slots line.operands = true ∧
      Slot.resolveAll labels a form.slots line.operands = .ok arguments ∧
      form.template.Makes arguments c := by
  obtain ⟨form, arguments, found, resolved, contents⟩ := contents?_eq_ok_some made
  exact ⟨form, arguments, found, acceptAll_of_form? found, resolved,
    Template.makes_of_contents contents⟩

/-- The size that the first pass computes is the size of the contents. -/
theorem nextAddress_eq {line : Line} {form : Form} {labels : Labels} {a next : Word}
    {arguments : List Argument} {c : Contents}
    (accepted : Slot.acceptAll form.slots line.operands = true)
    (resolved : Slot.resolveAll labels a form.slots line.operands = .ok arguments)
    (makes : form.template.Makes arguments c)
    (sized : line.nextAddress form a = .ok next) : next = c.next a := by
  obtain ⟨opcode, slots, template⟩ := form
  cases makes with
  | instruction encodes =>
    cases template <;> cases encodes <;> cases sized <;> rfl
  | fill =>
    cases sized
    rfl
  | origin =>
    obtain ⟨slot, x, operands, value⟩ := Slot.resolveAll_singleton accepted resolved
    cases x <;> rw [nextAddress, operands] at sized <;> cases sized
    cases value
    rfl
  | block =>
    obtain ⟨slot, x, operands, value⟩ := Slot.resolveAll_singleton accepted resolved
    cases x <;> rw [nextAddress, operands] at sized <;> cases sized
    cases value
    exact (Contents.next_block a _).symm
  | text =>
    obtain ⟨slot, x, operands, value⟩ := Slot.resolveAll_singleton accepted resolved
    cases Slot.eq_string_of_resolve value
    rw [nextAddress, operands] at sized
    cases sized
    exact (Contents.next_text a _).symm
  | finish =>
    cases sized
    rfl

/-- Behind a line the second pass is behind its contents. -/
theorem translate?_eq_contents? (line : Line) (labels : Labels) (a : Word) :
    line.translate? labels a =
      (line.contents? labels a).map (Option.map fun c => (c, c.next a)) := by
  rw [contents?]
  rcases translated : line.translate? labels a with _ | _ | ⟨c, next⟩
  · rfl
  · rfl
  · obtain ⟨form, arguments, found, resolved, sized, makes⟩ := translate?_eq_ok_some translated
    have same := nextAddress_eq (acceptAll_of_form? found) resolved
      (Template.makes_of_contents makes) sized
    rw [same]
    rfl

end Line

end LC3
