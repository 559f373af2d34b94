import LC3.Proofs.LineContents

/-!
# What the table of forms guarantees

The forms are a table, and a few facts about its rows carry both passes. A directive has a template
of its own, which no other opcode has. The operands that the slots of a form accept resolve to
arguments of the kinds that its template makes contents of, so a line with a form has contents as
soon as its labels are defined.
-/

namespace LC3

/-- The opcodes that are not operations of the machine. -/
def Keyword.directives : List String := [".ORIG", ".FILL", ".BLKW", ".STRINGZ", finish]

inductive Kind
  | register
  | value
  | text
deriving DecidableEq

namespace Argument

def kind : Argument → Kind
  | .register _ => .register
  | .value _ => .value
  | .text _ => .text

theorem kind_eq_register_iff {x : Argument} : x.kind = .register ↔ ∃ r, x = .register r := by
  cases x <;> simp [kind]

theorem kind_eq_value_iff {x : Argument} : x.kind = .value ↔ ∃ w, x = .value w := by
  cases x <;> simp [kind]

theorem kind_eq_text_iff {x : Argument} : x.kind = .text ↔ ∃ s, x = .text s := by
  cases x <;> simp [kind]

end Argument

namespace Slot

def kind : Slot → Kind
  | .register => .register
  | .immediate | .offset => .value
  | .string => .text

theorem kind_of_resolve {slot : Slot} {labels : Labels} {a : Word} {x : Operand}
    {argument : Argument} (accepted : slot.accepts x = true)
    (resolved : slot.resolve labels a x = .ok argument) : argument.kind = slot.kind := by
  cases x with
  | label name =>
    simp only [resolve] at resolved
    split at resolved
    · cases resolved
      cases slot <;> simp_all [accepts, Argument.kind, kind]
    · cases resolved
  | _ =>
    cases resolved
    cases slot <;> simp_all [accepts, Argument.kind, kind]

theorem map_kind_of_resolveAll {labels : Labels} {a : Word} {slots : List Slot}
    {xs : List Operand} {arguments : List Argument} (accepted : acceptAll slots xs = true)
    (resolved : resolveAll labels a slots xs = .ok arguments) :
    arguments.map Argument.kind = slots.map kind := by
  induction slots generalizing xs arguments with
  | nil =>
    cases resolved
    rfl
  | cons slot slots ih =>
    cases xs with
    | nil => exact absurd accepted (by simp [acceptAll])
    | cons x xs =>
      simp only [acceptAll, Bool.and_eq_true] at accepted
      obtain ⟨first, others, hfirst, hothers, rfl⟩ := resolveAll_cons resolved
      simp only [List.map_cons, kind_of_resolve accepted.1 hfirst, ih accepted.2 hothers]

/-- What a single slot for a value accepts. -/
theorem operands_of_value {slots : List Slot} {xs : List Operand}
    (accepted : acceptAll slots xs = true) (right : slots.map kind = [.value]) :
    (∃ w, xs = [.number w]) ∨ ∃ name, xs = [.label name] := by
  obtain ⟨slot, rfl, value⟩ := List.map_eq_singleton_iff.mp right
  obtain ⟨x, rfl⟩ := List.length_eq_one_iff.mp (length_eq_of_acceptAll accepted).symm
  cases slot <;> cases x <;> simp_all [kind, acceptAll, accepts]

/-- What a single slot for a text accepts. -/
theorem operands_of_text {slots : List Slot} {xs : List Operand}
    (accepted : acceptAll slots xs = true) (right : slots.map kind = [.text]) :
    ∃ s, xs = [.string s] := by
  obtain ⟨slot, rfl, text⟩ := List.map_eq_singleton_iff.mp right
  obtain ⟨x, rfl⟩ := List.length_eq_one_iff.mp (length_eq_of_acceptAll accepted).symm
  cases slot <;> cases x <;> simp_all [kind, acceptAll, accepts]

end Slot

namespace Template

/-- The directive whose work the template does. -/
def directive? : Template → Option String
  | .origin => some ".ORIG"
  | .fill => some ".FILL"
  | .block => some ".BLKW"
  | .text => some ".STRINGZ"
  | .finish => some Keyword.finish
  | _ => none

/-- The arguments that the template makes contents of. -/
def kinds : Template → List Kind
  | .threeRegisters _ => [.register, .register, .register]
  | .twoRegistersValue _ => [.register, .register, .value]
  | .twoRegisters _ => [.register, .register]
  | .registerValue _ => [.register, .value]
  | .oneRegister _ => [.register]
  | .oneValue _ | .branch | .origin | .fill | .block => [.value]
  | .fixed _ | .finish => []
  | .text => [.text]

def isBranch : Template → Bool
  | .branch => true
  | _ => false

/-- Arguments of the right kinds have contents, under a branch mnemonic if one is needed. -/
theorem exists_contents {t : Template} {mnemonic : String} {arguments : List Argument}
    (right : arguments.map Argument.kind = t.kinds)
    (named : t.isBranch = true → ∃ c, Condition.ofMnemonic? mnemonic = some c) :
    ∃ c, t.contents mnemonic arguments = .ok c := by
  cases t <;> simp only [kinds, List.map_eq_cons_iff, List.map_eq_nil_iff,
    Argument.kind_eq_register_iff, Argument.kind_eq_value_iff, Argument.kind_eq_text_iff] at right
  case threeRegisters | twoRegistersValue =>
    obtain ⟨_, _, rfl, ⟨a, rfl⟩, _, _, rfl, ⟨b, rfl⟩, _, _, rfl, ⟨c, rfl⟩, rfl⟩ := right
    exact ⟨_, rfl⟩
  case twoRegisters | registerValue =>
    obtain ⟨_, _, rfl, ⟨a, rfl⟩, _, _, rfl, ⟨b, rfl⟩, rfl⟩ := right
    exact ⟨_, rfl⟩
  case branch =>
    obtain ⟨_, _, rfl, ⟨v, rfl⟩, rfl⟩ := right
    obtain ⟨c, hc⟩ := named rfl
    simp only [contents, hc, Instruction.branch, Condition.isEmpty_of_ofMnemonic? hc]
    exact ⟨_, rfl⟩
  case oneRegister | oneValue | origin | fill | block | text =>
    obtain ⟨_, _, rfl, ⟨a, rfl⟩, rfl⟩ := right
    exact ⟨_, rfl⟩
  case fixed | finish =>
    subst right
    exact ⟨_, rfl⟩

end Template

namespace Form

variable {form : Form} {opcode : String}

theorem directive?_template (known : form ∈ all) :
    form.template.directive? =
      if form.opcode ∈ Keyword.directives then some form.opcode else none := by
  have table : ∀ f ∈ all, f.template.directive? =
      if f.opcode ∈ Keyword.directives then some f.opcode else none := by decide
  exact table form known

theorem kinds_template (known : form ∈ all) : form.template.kinds = form.slots.map Slot.kind := by
  have table : ∀ f ∈ all, f.template.kinds = f.slots.map Slot.kind := by decide
  exact table form known

/-- Only operations of the machine take distances. -/
theorem offset_not_mem_slots {name : String} (known : form ∈ all)
    (directive : form.template.directive? = some name) : Slot.offset ∉ form.slots := by
  have table : ∀ f ∈ all, f.template.directive? ≠ none → Slot.offset ∉ f.slots := by decide
  exact table form known (by simp [directive])

theorem opcode_eq_branchKey (known : form ∈ all) (branch : form.template.isBranch = true) :
    form.opcode = branchKey := by
  have table : ∀ f ∈ all, f.template.isBranch = true → f.opcode = branchKey := by decide
  exact table form known branch

/-- A directive is found under its own name. -/
theorem key_eq_iff {name : String} (directive : name ∈ Keyword.directives) :
    key opcode = name ↔ opcode = name := by
  have plain : ∀ d ∈ Keyword.directives, d ≠ branchKey ∧ Condition.ofMnemonic? d = none := by decide
  obtain ⟨other, unnamed⟩ := plain name directive
  rw [key]
  split
  · next branch =>
    constructor
    · intro same
      exact absurd same.symm other
    · rintro rfl
      simp [unnamed] at branch
  · rfl

/-- The forms of branches stand under mnemonics that name a condition. -/
theorem exists_condition (found : key opcode = branchKey) :
    ∃ c, Condition.ofMnemonic? opcode = some c := by
  rw [key] at found
  split at found
  · next branch => exact Option.isSome_iff_exists.mp branch
  · exact ⟨.always, found ▸ rfl⟩

end Form

namespace Line

variable {line : Line} {form : Form}

/-- The directive whose work a line does is the opcode of the line. -/
theorem directive?_eq_some_iff {name : String} (found : line.form? = .ok (some form)) :
    form.template.directive? = some name ↔
      name ∈ Keyword.directives ∧ line.opcode = some name := by
  obtain ⟨opcode, coded, hfind⟩ := form?_eq_ok_some found
  obtain ⟨known, keyed, -⟩ := Form.find?_spec hfind
  rw [Form.directive?_template known, Option.ite_none_right_eq_some, Option.some.injEq, coded,
    Option.some.injEq, keyed]
  constructor
  · rintro ⟨directive, rfl⟩
    exact ⟨directive, ((Form.key_eq_iff directive).mp rfl)⟩
  · rintro ⟨directive, rfl⟩
    have same := (Form.key_eq_iff directive).mpr rfl
    exact ⟨same.symm ▸ directive, same⟩

/-- Once the operands of a line with a form are resolved, its template has contents for them. -/
theorem exists_contents {labels : Labels} {a : Word} {arguments : List Argument}
    (found : line.form? = .ok (some form))
    (resolved : Slot.resolveAll labels a form.slots line.operands = .ok arguments) :
    ∃ c, form.template.contents (line.opcode.getD "") arguments = .ok c := by
  obtain ⟨opcode, coded, hfind⟩ := form?_eq_ok_some found
  obtain ⟨known, keyed, accepted⟩ := Form.find?_spec hfind
  have right := Slot.map_kind_of_resolveAll accepted resolved
  rw [← Form.kinds_template known] at right
  apply Template.exists_contents right
  intro branch
  rw [coded]
  exact Form.exists_condition (keyed.symm.trans (Form.opcode_eq_branchKey known branch))

end Line

end LC3
